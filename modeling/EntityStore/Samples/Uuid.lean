import EntityStore.Text.Digits
/-!
# Universally unique identifiers

An identifier has 128 bits and is written in hexadecimal figures.  Identifiers are ordered as numbers, which is how their
texts are ordered, too.
-/
namespace EntityStore

open Std

/-- A universally unique identifier. -/
structure Uuid where
  bits : BitVec 128
deriving DecidableEq

namespace Uuid

instance : Ord Uuid := ⟨fun a b => compare a.bits.toNat b.bits.toNat⟩

instance : TransOrd Uuid := inferInstanceAs (TransCmp (compareOn (fun u : Uuid => u.bits.toNat)))

instance : LawfulEqOrd Uuid where
  compare_self := compare_self (α := Nat)
  eq_of_compare {a b} h := by
    obtain ⟨x⟩ := a
    obtain ⟨y⟩ := b
    cases BitVec.eq_of_toNat_eq (LawfulEqOrd.eq_of_compare (α := Nat) h)
    rfl

/-- Thirty-two hexadecimal figures in five groups. -/
def text (u : Uuid) : String :=
  let figures := (Digits.text 16 32 u.bits.toNat).toList
  let group (start length : Nat) : String := String.ofList ((figures.drop start).take length)
  "-".intercalate [group 0 8, group 8 4, group 12 4, group 16 4, group 20 12]

/-- Reads the figures of a text, wherever the hyphens stand; `none` unless there are thirty-two. -/
def ofText? (s : String) : Option Uuid :=
  match Digits.hexDigits? (s.toList.filter (· ≠ '-')) with
  | some ds => if ds.length = 32 then some ⟨BitVec.ofNat 128 (Digits.value 16 ds)⟩ else none
  | none => none

end Uuid

end EntityStore

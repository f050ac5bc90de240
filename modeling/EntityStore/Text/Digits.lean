/-!
# Numbers written in digits

`digits b n` is the number `n` in base `b`, most significant digit first; `value b` reads such a list back.
Text in base 16 and 36 uses the figures `0`–`9` and then small letters.
-/
namespace EntityStore.Digits

/-- The digits of `n` in base `b`, most significant first; zero has one digit. -/
def digits (b n : Nat) : List Nat :=
  if _h : n < b ∨ b < 2 then [n] else digits b (n / b) ++ [n % b]
termination_by n
decreasing_by exact Nat.div_lt_self (by omega) (by omega)

/-- The number that a list of digits stands for. -/
def value (b : Nat) (ds : List Nat) : Nat := ds.foldl (fun n d => n * b + d) 0

theorem value_append_singleton (b : Nat) (ds : List Nat) (d : Nat) :
    value b (ds ++ [d]) = value b ds * b + d := by simp [value]

theorem value_digits (b n : Nat) : value b (digits b n) = n := by
  fun_induction digits b n with
  | case1 n h => simp [value]
  | case2 n h ih => rw [value_append_singleton, ih, Nat.mul_comm]; exact Nat.div_add_mod n b

/-- The figure of a digit below 36. -/
def figure (d : Nat) : Char :=
  if d < 10 then Char.ofNat (48 + d) else Char.ofNat (87 + d)

/-- A list brought to at least `width` members by zeros in front. -/
def padded (width : Nat) (ds : List Nat) : List Nat := List.replicate (width - ds.length) 0 ++ ds

/-- `n` in base `b`, with zeros in front up to `width` figures. -/
def text (b width n : Nat) : String := String.ofList ((padded width (digits b n)).map figure)

/-- The digit that a figure stands for, in bases up to 36. -/
def digit? (c : Char) : Option Nat :=
  if '0' ≤ c ∧ c ≤ '9' then some (c.toNat - 48)
  else if 'a' ≤ c ∧ c ≤ 'z' then some (c.toNat - 87)
  else none

/-- The digits of a text in base 16; `none` if a character is no figure of that base. -/
def hexDigits? (s : List Char) : Option (List Nat) :=
  s.mapM (fun c => (digit? c).filter (fun d => decide (d < 16)))

/-- Bytes as pairs of hexadecimal figures. -/
def hex (bytes : List UInt8) : String := String.join (bytes.map (fun b => text 16 2 b.toNat))

/-- The bytes that pairs of digits stand for; `none` if a digit is left over. -/
def pairUp? : List Nat → Option (List UInt8)
  | [] => some []
  | [_] => none
  | high :: low :: rest => (pairUp? rest).map ((high * 16 + low).toUInt8 :: ·)

/-- The bytes that pairs of hexadecimal figures stand for. -/
def ofHex? (s : String) : Option (List UInt8) := (hexDigits? s.toList).bind pairUp?

end EntityStore.Digits

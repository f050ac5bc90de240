/-!
# Rounding of exact quotients

A quotient of naturals goes to the nearest natural, and a tie to the even neighbour (`divHalfEven`) or upwards
(`divHalfUp`).  `binary53` keeps the 53 leading bits of a number, which is what a binary floating-point number of
double precision can hold; a product of two such numbers is `binary53` of the exact product.
-/
namespace EntityStore.Rounding

/-- The natural nearest to `num / den`; of two nearest, the even one. -/
def divHalfEven (num den : Nat) : Nat :=
  let q := num / den
  let r := num % den
  if 2 * r < den then q
  else if den < 2 * r then q + 1
  else if q % 2 = 0 then q else q + 1

/-- The natural nearest to `num / den`; of two nearest, the greater one. -/
def divHalfUp (num den : Nat) : Nat := (2 * num + den) / (2 * den)

/-- The nearest number of at most 53 significant bits, ties to even. -/
def binary53 (n : Nat) : Nat :=
  let extra := Nat.pow 2 (n.log2 - 52)
  divHalfEven n extra * extra

theorem binary53_of_lt {n : Nat} (h : n < 9007199254740992) : binary53 n = n := by
  have hlog : n.log2 - 52 = 0 := by
    by_cases hn : n = 0
    · subst hn; simp
    · have := (Nat.log2_lt (k := 53) hn).2 (by omega); omega
  simp [binary53, hlog, divHalfEven, Nat.mod_one]

end EntityStore.Rounding

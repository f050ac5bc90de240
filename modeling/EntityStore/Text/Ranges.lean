/-!
# Ranges of characters

A property of characters is given by ranges of code points, ends included.
-/
namespace EntityStore.Ranges

/-- Whether one of the ranges holds the character. -/
def hold (ranges : List (Nat × Nat)) (c : Char) : Bool := ranges.any (fun r => r.1 ≤ c.toNat && c.toNat ≤ r.2)

end EntityStore.Ranges

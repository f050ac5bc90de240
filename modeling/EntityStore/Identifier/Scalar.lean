/-!
# Values from elsewhere

Two kinds of values are not the library's own: points in time and universally unique identifiers.  `Scalars` holds all
that it takes of them, so that whatever is proved holds for any two types that keep their laws: values are told apart,
have a text, and have an order that is total (`Scalar.total`) and in which only a value and itself are equal
(`Scalar.exact`).
-/
namespace EntityStore

/-- A type of values that comes from elsewhere. -/
structure Scalar where
  Carrier : Type
  [decEq : DecidableEq Carrier]
  [order : Ord Carrier]
  text : Carrier → String
  /-- The order is total. -/
  [total : Std.TransOrd Carrier]
  /-- Values that compare as equal are equal. -/
  [exact : Std.LawfulEqOrd Carrier]

namespace Scalar

instance : CoeSort Scalar Type := ⟨Carrier⟩

variable (S : Scalar)

instance : DecidableEq S := S.decEq

instance : Ord S := S.order

instance : Std.TransOrd S := S.total

instance : Std.LawfulEqOrd S := S.exact

end Scalar

/-- The types of values that come from elsewhere. -/
structure Scalars where
  /-- Points in time. -/
  instant : Scalar
  /-- Universally unique identifiers. -/
  uuid : Scalar

end EntityStore

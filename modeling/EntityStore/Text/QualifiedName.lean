/-!
# Qualified names

A qualified name gives the path of a type before the type itself, the steps joined by `::`, and may end in
parameters in angle brackets: `m::sub::Key<a::B>`.  Its simple name is the last step, without the parameters.
-/
namespace EntityStore.QualifiedName

/-- What follows the last `::`, if there is one. -/
def afterLastJoin : List Char → Option (List Char)
  | [] => none
  | c :: rest =>
    match afterLastJoin rest with
    | some last => some last
    | none => if c = ':' ∧ rest.head? = some ':' then some (rest.drop 1) else none

def simple (name : String) : String :=
  let base := name.toList.takeWhile (· ≠ '<')
  String.ofList ((afterLastJoin base).getD base)

end EntityStore.QualifiedName

/-!
# Records as text

How a value with named parts, a wrapped value and a value that may be missing appear in messages.
-/
namespace EntityStore.Record

/-- A record with its fields: the name, and name and value of each field in braces. -/
def text (name : String) (fields : List (String × String)) : String :=
  name ++ " \x7b " ++ ", ".intercalate (fields.map (fun f => f.1 ++ ": " ++ f.2)) ++ " \x7d"

/-- A wrapped value: `Name(value)`. -/
def wrapped (name value : String) : String := name ++ "(" ++ value ++ ")"

/-- A value that may be missing. -/
def optional : Option String → String
  | some value => wrapped "Some" value
  | none => "None"

end EntityStore.Record

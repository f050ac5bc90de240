import EntityStore.Error
import EntityStore.Identifier.Shape
import EntityStore.Text.QualifiedName
/-!
# Schemas

A `Schema` is a shape that has passed the checks, with its leaves laid out in a row.  `Schema.ofShape` is the
only way to one; `Schema.flatten` turns a node into one cell for each field, or names the field at which the node
leaves the shape.
-/
namespace EntityStore

variable {X : Scalars}

/-- The checked shape of an identifier type, with its fields in order. -/
structure Schema where
  /-- The qualified name of the identifier type. -/
  typeName : String
  shape : Shape
  fields : List Field

namespace Schema

/-- The name of the single field of a type that is stored as one field. -/
def convertedField : String := "id"

/-- The fields of a shape that may stand on its own. -/
def fieldsOf : Shape → Except SchemaFault (List Field)
  | .leaf _ => .error .bareLeaf
  | .converted kind => (Field.checked convertedField kind).map ([·])
  | .composite parts =>
    match Shape.fieldsOfParts "" [] parts with
    | .error fault => .error fault
    | .ok fields => if fields.isEmpty then .error .noFields else .ok fields

def ofShape (typeName : String) (shape : Shape) : Except Error Schema :=
  match fieldsOf shape with
  | .error fault => .error (.invalidSchema typeName fault.message)
  | .ok fields => .ok { typeName, shape, fields }

variable (s : Schema)

/-- The type's name without the path to it. -/
def simpleName : String := QualifiedName.simple s.typeName

def width : Nat := s.fields.length

def fieldNames : List String := s.fields.map Field.name

/-- The place of the field of the given name. -/
def index? (name : String) : Option Nat := s.fields.findIdx? (fun f => f.name = name)

/-- The name of the field in place `index`, or a mark for the end of the row. -/
def nameAt (index : Nat) : String := ((s.fields[index]?).map Field.name).getD "<end>"

def faultOf : Mismatch → SchemaFault
  | .kind index expected got => .kindMismatch (s.nameAt index) expected got
  | .shape index => .shapeMismatch (s.nameAt index)

/-- One cell for each field. -/
def flatten (node : Node X) : Except Error (Cells X) :=
  match s.shape.flatten 0 node with
  | .error m => .error (.invalidSchema s.typeName (s.faultOf m).message)
  | .ok cells => .ok cells

end Schema

end EntityStore

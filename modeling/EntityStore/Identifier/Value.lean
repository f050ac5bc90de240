import EntityStore.Identifier.Scalar
import EntityStore.Text.Digits
/-!
# Values of identifier fields

A field of an identifier holds a value of one of seven kinds; the two other kinds exist so that a schema can
name, and refuse, fields without an order.  `Value.compare` is the order of values: by kind first, and within a
kind by what the value is.  A schema fixes the kind of every field, so two values met in one field have the
same kind.
-/
namespace EntityStore

variable {X : Scalars}

/-- What a field of an identifier can hold. -/
inductive Kind where
  | string | integer | enum | boolean | timestamp | uuid | bytes | float | object
deriving DecidableEq

namespace Kind

/-- The kinds that an identifier's field may have, in the order of their values. -/
def allowed : List Kind := [.string, .integer, .enum, .boolean, .timestamp, .uuid, .bytes]

def isAllowed (k : Kind) : Bool := allowed.contains k

def name : Kind → String
  | .string => "String"
  | .integer => "Integer"
  | .enum => "Enum"
  | .boolean => "Boolean"
  | .timestamp => "Timestamp"
  | .uuid => "Uuid"
  | .bytes => "Bytes"
  | .float => "Float"
  | .object => "Object"

/-- The place of a kind in the order of values. -/
def rank : Kind → Nat
  | .string => 0
  | .integer => 1
  | .enum => 2
  | .boolean => 3
  | .timestamp => 4
  | .uuid => 5
  | .bytes => 6
  | .float => 7
  | .object => 8

end Kind

/-- A value of an identifier's field. -/
inductive Value (X : Scalars) where
  | string (s : String)
  | integer (i : Int)
  | enum (name : String)
  | boolean (b : Bool)
  | timestamp (t : X.instant)
  | uuid (u : X.uuid)
  | bytes (bs : List UInt8)
deriving DecidableEq

namespace Value

def kind : Value X → Kind
  | .string _ => .string
  | .integer _ => .integer
  | .enum _ => .enum
  | .boolean _ => .boolean
  | .timestamp _ => .timestamp
  | .uuid _ => .uuid
  | .bytes _ => .bytes

/-- The order of values: by kind, then by content. -/
def compare : Value X → Value X → Ordering
  | .string a, .string b => Ord.compare a b
  | .integer a, .integer b => Ord.compare a b
  | .enum a, .enum b => Ord.compare a b
  | .boolean a, .boolean b => Ord.compare a b
  | .timestamp a, .timestamp b => Ord.compare a b
  | .uuid a, .uuid b => Ord.compare a b
  | .bytes a, .bytes b => Ord.compare a b
  | a, b => Ord.compare a.kind.rank b.kind.rank

instance : Ord (Value X) := ⟨compare⟩

def text : Value X → String
  | .string s => s
  | .integer i => toString i
  | .enum s => s
  | .boolean b => if b then "true" else "false"
  | .timestamp t => X.instant.text t
  | .uuid u => X.uuid.text u
  | .bytes bs => Digits.hex bs

end Value

end EntityStore

import EntityStore.Identifier.Cells
/-!
# Shapes and nodes

An identifier type declares a `Shape`, a tree of named fields, and an identifier shows its values as a `Node`, a
tree over that shape in which any subtree may be missing.  Two recursions over the shape run side by side:
`Shape.fields` lists the leaves with their dotted names, and `Shape.flatten` lists the values of a node in the
same order.  `Shape.width` is the number of leaves.
-/
namespace EntityStore

variable {X : Scalars}

/-- How an identifier type is built. -/
inductive Shape where
  /-- A field; only inside a composite. -/
  | leaf (kind : Kind)
  /-- A type that is stored as a single field. -/
  | converted (kind : Kind)
  /-- Named parts, in order of declaration. -/
  | composite (parts : List (String × Shape))

/-- The values of an identifier. -/
inductive Node (X : Scalars) where
  /-- No value: a field, or a whole part, is missing. -/
  | missing
  | value (v : Value X)
  | composite (parts : List (Node X))

namespace Node

mutual

/-- Whether two nodes are equal. -/
def decEq : (a b : Node X) → Decidable (a = b)
  | .missing, .missing => isTrue rfl
  | .value v, .value w => if h : v = w then isTrue (by rw [h]) else isFalse (by simp [h])
  | .composite ps, .composite qs =>
    match decEqParts ps qs with
    | isTrue h => isTrue (by rw [h])
    | isFalse h => isFalse (by simp [h])
  | .missing, .value _ => isFalse nofun
  | .missing, .composite _ => isFalse nofun
  | .value _, .missing => isFalse nofun
  | .value _, .composite _ => isFalse nofun
  | .composite _, .missing => isFalse nofun
  | .composite _, .value _ => isFalse nofun

def decEqParts : (ps qs : List (Node X)) → Decidable (ps = qs)
  | [], [] => isTrue rfl
  | [], _ :: _ => isFalse nofun
  | _ :: _, [] => isFalse nofun
  | p :: ps, q :: qs =>
    match decEq p q with
    | isFalse h => isFalse (by simp [h])
    | isTrue h =>
      match decEqParts ps qs with
      | isFalse h' => isFalse (by simp [h'])
      | isTrue h' => isTrue (by rw [h, h'])

end

instance : DecidableEq (Node X) := decEq

/-- The node of a value that may be missing. -/
def ofOption : Option (Value X) → Node X
  | some v => .value v
  | none => .missing

end Node

/-- A leaf of a shape. -/
structure Field where
  /-- The names on the way to the leaf, joined by dots. -/
  name : String
  kind : Kind
deriving DecidableEq

/-- Why a shape is no schema, or a node does not fit a shape. -/
inductive SchemaFault where
  | duplicateField (path : String)
  | kindNotAllowed (field : String) (kind : Kind)
  | noFields
  | bareLeaf
  | kindMismatch (field : String) (expected got : Kind)
  | shapeMismatch (field : String)
deriving DecidableEq

def SchemaFault.message : SchemaFault → String
  | .duplicateField path => s!"duplicate field `{path}`"
  | .kindNotAllowed field kind =>
    s!"leaf ID field `{field}` has kind {kind.name}; allowed kinds are [" ++
      ", ".intercalate (Kind.allowed.map Kind.name) ++ "]"
  | .noFields => "ID must have at least 1 field"
  | .bareLeaf => "non-composite ID must be a converted value type"
  | .kindMismatch field expected got => s!"field `{field}` expects {expected.name}, got {got.name}"
  | .shapeMismatch field => s!"values do not match the declared shape at `{field}`"

/-- Where and how a node leaves its shape; the place is the number of leaves before it. -/
inductive Mismatch where
  | kind (index : Nat) (expected got : Kind)
  | shape (index : Nat)
deriving DecidableEq

/-- A field of the given name, if its kind is allowed. -/
def Field.checked (name : String) (kind : Kind) : Except SchemaFault Field :=
  if kind.isAllowed then .ok { name, kind } else .error (.kindNotAllowed name kind)

namespace Shape

mutual

/-- The number of leaves. -/
def width : Shape → Nat
  | .leaf _ => 1
  | .converted _ => 1
  | .composite parts => widthOfParts parts

def widthOfParts : List (String × Shape) → Nat
  | [] => 0
  | (_, part) :: rest => part.width + widthOfParts rest

end

mutual

/-- The leaves below `path`, in order of declaration. -/
def fields (path : String) : Shape → Except SchemaFault (List Field)
  | .leaf kind => (Field.checked path kind).map ([·])
  | .converted kind => (Field.checked path kind).map ([·])
  | .composite parts => fieldsOfParts (path ++ ".") [] parts

/-- The leaves of parts in a folder; `seen` holds the names of the parts before. -/
def fieldsOfParts (folder : String) (seen : List String) :
    List (String × Shape) → Except SchemaFault (List Field)
  | [] => .ok []
  | (name, part) :: rest =>
    if seen.contains name then .error (.duplicateField (folder ++ name))
    else
      match part.fields (folder ++ name) with
      | .error fault => .error fault
      | .ok here =>
        match fieldsOfParts folder (name :: seen) rest with
        | .error fault => .error fault
        | .ok more => .ok (here ++ more)

end

/-- The cell of a leaf. -/
def flattenLeaf (index : Nat) (kind : Kind) : Node X → Except Mismatch (Cells X)
  | .missing => .ok [none]
  | .value v => if v.kind = kind then .ok [some v] else .error (.kind index kind v.kind)
  | .composite _ => .error (.shape index)

mutual

/-- The cells of a node, in the order of the leaves; `index` counts the leaves before. -/
def flatten (index : Nat) : Shape → Node X → Except Mismatch (Cells X)
  | .leaf kind, node => flattenLeaf index kind node
  | .converted kind, node => flattenLeaf index kind node
  | .composite parts, .missing => .ok (List.replicate (widthOfParts parts) none)
  | .composite _, .value _ => .error (.shape index)
  | .composite parts, .composite nodes =>
    if parts.length = nodes.length then flattenParts index parts nodes else .error (.shape index)

def flattenParts (index : Nat) : List (String × Shape) → List (Node X) → Except Mismatch (Cells X)
  | (_, part) :: parts, node :: nodes =>
    match part.flatten index node with
    | .error fault => .error fault
    | .ok here =>
      match flattenParts (index + here.length) parts nodes with
      | .error fault => .error fault
      | .ok more => .ok (here ++ more)
  | _, _ => .ok []

end

end Shape

end EntityStore

import EntityStore.Identifier.Interval
/-!
# Entity types

An `EntityType` says all that the library has to know about a kind of entity: its identifiers and their shape,
how an identifier is read off an entity, what happens to an entity on its way from and to the store, and how both
are written in messages.  The theory quantifies over entity types; a concrete one is a value of this structure.
-/
namespace EntityStore

variable {X : Scalars}

/-- A kind of entity. -/
structure EntityType (X : Scalars) where
  /-- The identifiers. -/
  Id : Type
  /-- The entities. -/
  Entity : Type
  idDecEq : DecidableEq Id
  /-- The qualified name of the identifier type. -/
  typeName : String
  /-- The name of the table that holds the entities. -/
  table : String
  shape : Shape
  node : Id → Node X
  idOf : Entity → Id
  /-- Applied to every entity read from the store. -/
  onLoad : Entity → Entity := fun e => e
  /-- Applied to every entity before it is written. -/
  onSave : Entity → Entity := fun e => e
  idText : Id → String
  entityText : Entity → String

namespace EntityType

variable (E : EntityType X)

instance : DecidableEq E.Id := E.idDecEq

/-- The schema of the identifiers. -/
def schema : Except Error Schema := Schema.ofShape E.typeName E.shape

/-- The flat form of an identifier. -/
def flatten (id : E.Id) : Except Error (Cells X) :=
  match E.schema with
  | .error e => .error e
  | .ok schema => schema.flatten (E.node id)

variable {E} in
theorem flatten_of_schema {s : Schema} (h : E.schema = .ok s) (id : E.Id) : E.flatten id = s.flatten (E.node id) := by
  rw [flatten, h]

variable {E} in
theorem flatten_of_no_schema {e : Error} (h : E.schema = .error e) (id : E.Id) : E.flatten id = .error e := by
  rw [flatten, h]

def compareIds (a b : E.Id) : Except Error Ordering :=
  match E.flatten a with
  | .error e => .error e
  | .ok x =>
    match E.flatten b with
    | .error e => .error e
    | .ok y => .ok (x.compare y)

variable {E} in
theorem compareIds_of_flatten {a b : E.Id} {x y : Cells X} (ha : E.flatten a = .ok x) (hb : E.flatten b = .ok y) :
    E.compareIds a b = .ok (x.compare y) := by
  rw [compareIds, ha, hb]

def isPartialId (id : E.Id) : Except Error Bool := (E.flatten id).map Cells.isPartial

/-- The interval between two identifiers, both included. -/
def interval (lower upper : E.Id) : Except Error (Interval X) :=
  match E.schema with
  | .error e => .error e
  | .ok schema =>
    match schema.flatten (E.node lower) with
    | .error e => .error e
    | .ok a =>
      match schema.flatten (E.node upper) with
      | .error e => .error e
      | .ok b => Interval.ofBounds schema a b

/-- The identifiers that agree with the filled fields of one identifier. -/
def intervalUnder (id : E.Id) : Except Error (Interval X) := E.interval id id

/-- Whether an identifier lies in an interval; it has to be complete. -/
def inInterval (r : Interval X) (id : E.Id) : Except Error Bool :=
  match r.schema.flatten (E.node id) with
  | .error e => .error e
  | .ok cells =>
    match r.containsCells cells with
    | .error _ => .error (.invalidArgument s!"Id fields cannot be null: {E.idText id}")
    | .ok b => .ok b

/-- A key as `Table(field=value, ...)`. -/
def keyText (cells : Cells X) : String :=
  let names := match E.schema with
    | .ok schema => schema.fieldNames
    | .error _ => []
  let parts := (names.zip cells).map fun p =>
    match p.2 with
    | some v => p.1 ++ "=" ++ v.text
    | none => p.1 ++ "=null"
  s!"{E.table}(" ++ ", ".intercalate parts ++ ")"

/-- The flat form of the identifier of each entity, or the first failure. -/
def keyed : List E.Entity → Except Error (List (Cells X × E.Entity))
  | [] => .ok []
  | e :: rest =>
    match E.flatten (E.idOf e) with
    | .error err => .error err
    | .ok cells =>
      match keyed rest with
      | .error err => .error err
      | .ok more => .ok ((cells, e) :: more)

/-- Entities in canonical order of their identifiers; equal ones keep their order. -/
def sortById (entities : List E.Entity) : Except Error (List E.Entity) :=
  match E.schema with
  | .error err => .error err
  | .ok _ =>
    match keyed E entities with
    | .error err => .error err
    | .ok pairs => .ok ((pairs.mergeSort (fun a b => a.1.compare b.1 ≠ .gt)).map Prod.snd)

variable {E} in
theorem sortById_eq_ok_iff {entities sorted : List E.Entity} :
    E.sortById entities = .ok sorted ↔ ∃ schema pairs, E.schema = .ok schema ∧ E.keyed entities = .ok pairs ∧
      (pairs.mergeSort fun a b => a.1.compare b.1 ≠ .gt).map Prod.snd = sorted := by
  unfold sortById
  cases E.schema with
  | error err => simp
  | ok schema => cases E.keyed entities <;> simp

end EntityType

end EntityStore

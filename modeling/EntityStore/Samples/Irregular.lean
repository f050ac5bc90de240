import EntityStore.Entity
import EntityStore.Samples.Scalars
import EntityStore.Text.Quoted
import EntityStore.Text.Record
/-!
# Irregular identifiers

Three sample entity types at the edge of what a schema promises: identifiers that may show any node, whether it fits
their shape or not, identifiers whose shape no schema accepts, and identifiers with a part that has no leaves, two of
which share a flat form.
-/
namespace EntityStore

/-- An entity whose identifier shows any node. -/
structure Loose where
  node : Node Sample.scalars
deriving DecidableEq

/-- The entity type of loose entities; `home` is the path of the identifier type. -/
def Loose.type (home : String) : EntityType Sample.scalars where
  Id := Node Sample.scalars
  Entity := Loose
  idDecEq := inferInstance
  typeName := home ++ "::LooseId"
  table := "Loose"
  shape := .composite [("x", .leaf .integer), ("y", .composite [("z", .leaf .string)])]
  node id := id
  idOf := Loose.node
  idText _ := "LooseId"
  entityText _ := Record.text "Loose" [("id", "LooseId")]

structure BadId where
  n : Int
deriving DecidableEq

def BadId.text (id : BadId) : String := Record.wrapped "BadId" (toString id.n)

/-- An entity whose identifier has a field without an order. -/
structure BadEntity where
  id : BadId
deriving DecidableEq

/-- The entity type whose shape is refused; `home` is the path of the identifier type. -/
def BadEntity.type (home : String) : EntityType Sample.scalars where
  Id := BadId
  Entity := BadEntity
  idDecEq := inferInstance
  typeName := home ++ "::BadId"
  table := "BadEnt"
  shape := .composite [("n", .leaf .integer), ("ratio", .leaf .float)]
  node id := .composite [.value (.integer id.n), .missing]
  idOf := BadEntity.id
  idText := BadId.text
  entityText e := Record.text "BadEnt" [("id", e.id.text)]

/-- The identifier of a hall, which may have a light.  Of the light nothing is told but that it is there. -/
structure HallId where
  name : String
  lit : Bool
deriving DecidableEq

def HallId.text (id : HallId) : String :=
  Record.text "HallId" [("name", Quoted.encode id.name), ("light", Record.optional (if id.lit then some "Light" else none))]

structure Hall where
  id : HallId
deriving DecidableEq

/-- The entity type of halls; `home` is the path of the identifier type. -/
def Hall.type (home : String) : EntityType Sample.scalars where
  Id := HallId
  Entity := Hall
  idDecEq := inferInstance
  typeName := home ++ "::HallId"
  table := "Hall"
  shape := .composite [("name", .leaf .string), ("light", .composite [])]
  node id := .composite [.value (.string id.name), if id.lit then .composite [] else .missing]
  idOf := Hall.id
  idText := HallId.text
  entityText e := Record.text "Hall" [("id", e.id.text)]

end EntityStore

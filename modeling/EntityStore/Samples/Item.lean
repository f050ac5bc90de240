import EntityStore.Entity
import EntityStore.Samples.Scalars
import EntityStore.Text.Quoted
import EntityStore.Text.Record
/-!
# Items

A sample entity type whose identifier has four fields, each of which may be empty, so that an item's identifier can
stand for all items that agree with its filled fields.
-/
namespace EntityStore

/-- How an item is. -/
inductive ItemStatus where
  | ok
  | error
deriving DecidableEq

namespace ItemStatus

/-- The stored name, by which identifiers are ordered. -/
def stored : ItemStatus → String
  | .ok => "OK"
  | .error => "ERROR"

def text : ItemStatus → String
  | .ok => "Ok"
  | .error => "Error"

end ItemStatus

structure ItemId where
  a : Option Int
  b : Option Int
  c : Option String
  d : Option ItemStatus
deriving DecidableEq

namespace ItemId

def shape : Shape :=
  .composite [("a", .leaf .integer), ("b", .leaf .integer), ("c", .leaf .string), ("d", .leaf .enum)]

def node (id : ItemId) : Node Sample.scalars :=
  .composite [.ofOption (id.a.map .integer), .ofOption (id.b.map .integer), .ofOption (id.c.map .string),
    .ofOption (id.d.map (fun d => .enum d.stored))]

def text (id : ItemId) : String :=
  Record.text "ItemId" [("a", Record.optional (id.a.map toString)), ("b", Record.optional (id.b.map toString)),
    ("c", Record.optional (id.c.map Quoted.encode)), ("d", Record.optional (id.d.map ItemStatus.text))]

end ItemId

structure Item where
  id : ItemId
  payload : String
deriving DecidableEq

/-- The entity type of items; `home` is the path of the identifier type. -/
def Item.type (home : String) : EntityType Sample.scalars where
  Id := ItemId
  Entity := Item
  idDecEq := inferInstance
  typeName := home ++ "::ItemId"
  table := "Item"
  shape := ItemId.shape
  node := ItemId.node
  idOf := Item.id
  idText := ItemId.text
  entityText e := Record.text "Item" [("id", e.id.text), ("payload", Quoted.encode e.payload)]

end EntityStore

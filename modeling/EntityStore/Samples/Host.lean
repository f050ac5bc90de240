import EntityStore.Entity
import EntityStore.Samples.Scalars
import EntityStore.Text.Quoted
import EntityStore.Text.Record
/-!
# Hosts

A sample entity type whose identifier nests one composite in another and uses the remaining kinds of values.  Its
hooks leave their marks in a note, so that a reader sees which of them an entity has passed.
-/
namespace EntityStore

structure Region where
  zone : Option String
  rack : Option Int
deriving DecidableEq

structure HostId where
  region : Option Region
  host : Option Uuid
  seen : Option Instant
  raw : Option (List UInt8)
  up : Option Bool
deriving DecidableEq

namespace HostId

def shape : Shape :=
  .composite [("region", .composite [("zone", .leaf .string), ("rack", .leaf .integer)]), ("host", .leaf .uuid),
    ("at", .converted .timestamp), ("raw", .leaf .bytes), ("up", .leaf .boolean)]

def node (id : HostId) : Node Sample.scalars :=
  let region := match id.region with
    | none => Node.missing
    | some r => .composite [.ofOption (r.zone.map .string), .ofOption (r.rack.map .integer)]
  .composite [region, .ofOption (id.host.map .uuid), .ofOption (id.seen.map .timestamp), .ofOption (id.raw.map .bytes),
    .ofOption (id.up.map .boolean)]

/-- The cells of the identifier. -/
def cells (id : HostId) : Cells Sample.scalars :=
  match shape.flatten 0 id.node with
  | .ok cells => cells
  | .error _ => []

def text (id : HostId) : String :=
  Record.wrapped "HostId" (",".intercalate (id.cells.map (fun c => (c.map Value.text).getD "-")))

end HostId

structure Host where
  id : HostId
  note : String
deriving DecidableEq

/-- The entity type of hosts; `home` is the path of the identifier type. -/
def Host.type (home : String) : EntityType Sample.scalars where
  Id := HostId
  Entity := Host
  idDecEq := inferInstance
  typeName := home ++ "::HostId"
  table := "Host"
  shape := HostId.shape
  node := HostId.node
  idOf := Host.id
  onLoad e := { e with note := e.note ++ "+L" }
  onSave e := { e with note := e.note ++ "+S" }
  idText := HostId.text
  entityText e := Record.text "Host" [("id", e.id.text), ("note", Quoted.encode e.note)]

end EntityStore

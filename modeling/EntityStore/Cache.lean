import EntityStore.Dict
import EntityStore.Entity
/-!
# The first-level cache

An attempt remembers, for each identifier it has met, whether there is an entity, whether the attempt deleted it,
or whether the store is known to hold none; identifiers it has not met have no slot.  A disabled cache stays empty.
`settle` is what a point read does with the store's answer, and `absorb` what every other read does with a row:
what the cache knows wins over the row, and the load hook is applied to rows of unknown identifiers only.
-/
namespace EntityStore

variable {X : Scalars}

/-- What a cache knows of an identifier. -/
inductive Slot (ε : Type) where
  /-- Read or written in this attempt. -/
  | present (e : ε)
  /-- Deleted in this attempt. -/
  | tombstoned
  /-- Confirmed to be missing from the store. -/
  | absent
deriving DecidableEq

/-- The entity of a slot, if it holds one. -/
def Slot.entity? {ε : Type} : Slot ε → Option ε
  | .present e => some e
  | .tombstoned => none
  | .absent => none

/-- The cache of one attempt for one entity type. -/
structure Cache (E : EntityType X) where
  enabled : Bool := true
  slots : Dict E.Id (Slot E.Entity) := {}

namespace Cache

variable {E : EntityType X}

/-- The slot of an identifier; `none` while it is unknown. -/
def lookup (c : Cache E) (id : E.Id) : Option (Slot E.Entity) := c.slots.get? id

def contains (c : Cache E) (id : E.Id) : Bool := (c.lookup id).isSome

/-- Sets a slot, unless the cache is disabled. -/
def setSlot (c : Cache E) (id : E.Id) (slot : Slot E.Entity) : Cache E :=
  if c.enabled then { c with slots := c.slots.insert id slot } else c

/-- Remembers an entity under its own identifier. -/
def put (c : Cache E) (e : E.Entity) : Cache E := c.setSlot (E.idOf e) (.present e)

/-- Remembers that the store holds nothing under an identifier. -/
def putEmpty (c : Cache E) (id : E.Id) : Cache E := c.setSlot id .absent

/-- Remembers that the attempt deleted an identifier. -/
def putTombstone (c : Cache E) (id : E.Id) : Cache E := c.setSlot id .tombstoned

/-- The entity of a known identifier; `none` if there is none. -/
def peek (c : Cache E) (id : E.Id) : Except Error (Option E.Entity) :=
  match c.lookup id with
  | none => .error (.invalidOperation s!"no first-level cache entry for {E.idText id}")
  | some slot => .ok slot.entity?

/-- Remembers the answer of a point read. -/
def settle (c : Cache E) (id : E.Id) : Option E.Entity → Cache E
  | some e => c.put e
  | none => c.putEmpty id

/-- The entity of an identifier, from the cache if it is known there, else from `load`, whose answer is
remembered. -/
def getOrLoad (c : Cache E) (id : E.Id) (load : Except Error (Option E.Entity)) :
    Except Error (Option E.Entity) × Cache E :=
  if c.contains id then (c.peek id, c)
  else
    match load with
    | .error e => (.error e, c)
    | .ok loaded => (.ok loaded, c.settle id loaded)

/-- Merges a row read from the store into what the attempt sees. -/
def absorb (c : Cache E) (row : E.Entity) : Option E.Entity × Cache E :=
  match c.lookup (E.idOf row) with
  | some slot => (slot.entity?, c)
  | none => (some (E.onLoad row), c.put (E.onLoad row))

/-- Merges rows one after another, and keeps the entities that are left. -/
def absorbAll (c : Cache E) : List E.Entity → List E.Entity × Cache E
  | [] => ([], c)
  | row :: rest =>
    let (entity, c) := c.absorb row
    let (entities, c) := c.absorbAll rest
    (entity.toList ++ entities, c)

/-- The entities in the cache, in canonical order. -/
def snapshot (c : Cache E) : Except Error (List E.Entity) :=
  E.sortById (c.slots.values.filterMap Slot.entity?)

/-- The number of known identifiers. -/
def size (c : Cache E) : Nat := c.slots.size

theorem lookup_setSlot (c : Cache E) (id j : E.Id) (slot : Slot E.Entity) :
    (c.setSlot id slot).lookup j = if c.enabled ∧ id = j then some slot else c.lookup j := by
  unfold setSlot lookup
  by_cases h : c.enabled <;> simp [h, Dict.get?_insert]

@[simp] theorem enabled_setSlot (c : Cache E) (id : E.Id) (slot : Slot E.Entity) :
    (c.setSlot id slot).enabled = c.enabled := by
  unfold setSlot; split <;> rfl

end Cache

end EntityStore

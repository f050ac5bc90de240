import EntityStore.Cache
/-!
# Reading a set of identifiers through the cache

`Cache.merge` answers a set of identifiers, all complete or all partial in the same fields, from the cache and the
store together.  It asks the store once, for the identifiers that the cache does not know and not at all if there
are none; each row is absorbed into the cache, complete identifiers without a row are remembered as absent, and the
answer is in canonical order.  The store is any state `σ` with a way to ask it.
-/
namespace EntityStore.Cache

variable {X : Scalars} {E : EntityType X} {σ : Type}

/-- The fields that are empty in every one of the identifiers, once one of them has fixed which those are. -/
def samePattern (schema : Schema) (pattern : List Bool) : List E.Id → Except Error Unit
  | [] => .ok ()
  | id :: rest =>
    match schema.flatten (E.node id) with
    | .error e => .error e
    | .ok cells =>
      if cells.map Option.isNone = pattern then samePattern schema pattern rest
      else .error (.invalidArgument s!"ids of {schema.simpleName} must all have nulls in the same fields")

/-- Whether the identifiers are partial; fails unless they are so in the same fields. -/
def arePartial (ids : List E.Id) : Except Error Bool :=
  match E.schema with
  | .error e => .error e
  | .ok schema =>
    match ids with
    | [] => .ok false
    | id :: rest =>
      match schema.flatten (E.node id) with
      | .error e => .error e
      | .ok cells =>
        (samePattern (E := E) schema (cells.map Option.isNone) rest).map (fun _ => Cells.isPartial cells)

/-- The entities that the cache holds for the identifiers. -/
def held (c : Cache E) (ids : List E.Id) : Dict E.Id E.Entity :=
  ids.foldl (fun found id =>
    match (c.lookup id).bind Slot.entity? with
    | some e => found.insert id e
    | none => found) {}

/-- The identifiers that the cache does not know. -/
def unknown (c : Cache E) (ids : List E.Id) : List E.Id := ids.filter (fun id => !c.contains id)

/-- Absorbs the rows and notes what is left of each under the row's identifier. -/
def absorbRows (c : Cache E) (found : Dict E.Id E.Entity) : List E.Entity → Dict E.Id E.Entity × Cache E
  | [] => (found, c)
  | row :: rest =>
    match c.absorb row with
    | (some e, c) => absorbRows c (found.insert (E.idOf row) e) rest
    | (none, c) => absorbRows c found rest

/-- Remembers as absent the identifiers that no row came for. -/
def noteMissing (c : Cache E) (rows : List E.Entity) (ids : List E.Id) : Cache E :=
  ids.foldl (fun c id => if rows.any (fun row => E.idOf row = id) then c else c.putEmpty id) c

/-- The entities of a set of identifiers, from the cache and the store. -/
def merge (c : Cache E) (ids : List E.Id) (ask : List E.Id → σ → Except Error (List E.Entity) × σ) (s : σ) :
    Except Error (List E.Entity) × Cache E × σ :=
  if ids.isEmpty then (.ok [], c, s)
  else
    let ids := ids.eraseDups
    match arePartial (E := E) ids with
    | .error e => (.error e, c, s)
    | .ok isPartial =>
      let wanted := c.unknown ids
      match (if wanted.isEmpty then (.ok [], s) else ask wanted s) with
      | (.error e, s) => (.error e, c, s)
      | (.ok rows, s) =>
        let (found, c') := c.absorbRows (c.held ids) rows
        let c' := if isPartial then c' else c'.noteMissing rows wanted
        (E.sortById found.values, c', s)

end EntityStore.Cache

import EntityStore.Cache.Merge
import EntityStore.Store.Transaction
/-!
# Tables of a transaction

The reads and writes of one table.  Every read that reaches the store first locks what it is about to read, and its
rows go through the cache; every write that succeeds is remembered there at once, whether it was applied or queued.
-/
namespace EntityStore.Session

variable {X : Scalars} {κ : Type} [DecidableEq κ] {C : κ → EntityType X}

/-- Opens a table: from then on it has a cache. -/
def openTable (s : Session C) (k : κ) : Session C :=
  match s.tx.caches.get? k with
  | some _ => s
  | none => s.setCache k { enabled := s.tx.options.cache }

/-- The text of a row, or of none. -/
def rowText (k : κ) : Option (C k).Entity → String
  | some e => (C k).entityText e
  | none => "null"

/-- The text of a single row, or the number of rows. -/
def rowsText (k : κ) : List (C k).Entity → String
  | [e] => (C k).entityText e
  | rows => s!"[{rows.length}]"

/-- The rows whose keys are wanted, or the first failure to tell. -/
def keepRows {ρ : Type} (keep : Cells X → Except Error Bool) : List (Cells X × ρ) → Except Error (List ρ)
  | [] => .ok []
  | (cells, row) :: rest =>
    match keep cells with
    | .error e => .error e
    | .ok wanted =>
      match keepRows keep rest with
      | .error e => .error e
      | .ok rows => .ok (if wanted then row :: rows else rows)

/-- The rows of a shard that are wanted, within the limits of a scan. -/
def collect (s : Session C) (k : κ) (keep : Cells X → Except Error Bool) (shard : Option (Shard (C k))) (v : Nat) :
    Except Error (List (C k).Entity) :=
  match shard with
  | none => .ok []
  | some shard =>
    match keepRows keep (shard.rows s.tx.id v) with
    | .error e => .error e
    | .ok rows =>
      match s.tx.checkScanSize (C k).table rows.length with
      | .error e => .error e.toError
      | .ok () => .ok rows

/-- The row under a complete identifier, read from the store. -/
def findUnknown (s : Session C) (k : κ) (id : (C k).Id) (cells : Cells X) :
    Except Error (Option (C k).Entity) × Session C :=
  let s := s.lockRow k cells
  match s.read k s!"find({(C k).idText id})" (rowText k)
      (fun shard v => .ok (shard.bind (fun shard => shard.read s.tx.id v cells))) with
  | (.error e, s) => (.error e, s)
  | (.ok row, s) =>
    let entity := row.map (C k).onLoad
    (.ok entity, s.setCache k ((s.tx.cache k).settle id entity))

/-- The entity with a complete identifier. -/
def find (s : Session C) (k : κ) (id : (C k).Id) : Except Error (Option (C k).Entity) × Session C :=
  match (C k).flatten id with
  | .error e => (.error e, s)
  | .ok cells =>
    if Cells.isPartial cells then
      (.error (.invalidArgument s!"Cannot use partial id in find method: {(C k).idText id}"), s)
    else if (s.tx.cache k).contains id then ((s.tx.cache k).peek id, s)
    else s.findUnknown k id cells

/-- Locks the rows of complete identifiers and the scans of partial ones, up to the first that does not flatten. -/
def lockIds (s : Session C) (k : κ) : List (C k).Id → Except Error (List (Cells X)) × Session C
  | [] => (.ok [], s)
  | id :: rest =>
    match (C k).flatten id with
    | .error e => (.error e, s)
    | .ok cells =>
      let s := if Cells.isPartial cells then s.lockScan k (.agreeing cells) else s.lockRow k cells
      match s.lockIds k rest with
      | (.error e, s) => (.error e, s)
      | (.ok more, s) => (.ok (cells :: more), s)

/-- The rows that each of the keys asks for, one key after another. -/
def rowsOfKeys (s : Session C) (k : κ) (shard : Shard (C k)) (v : Nat) :
    List (Cells X) → Except Error (List (C k).Entity)
  | [] => .ok []
  | cells :: rest =>
    let here :=
      if Cells.isPartial cells then s.collect k (fun key => .ok (Cells.agrees cells key)) (some shard) v
      else .ok (shard.read s.tx.id v cells).toList
    match here with
    | .error e => .error e
    | .ok rows =>
      match s.rowsOfKeys k shard v rest with
      | .error e => .error e
      | .ok more => .ok (rows ++ more)

/-- The rows of a set of identifiers, past the cache.  A partial identifier asks for every row that agrees with it. -/
def findUncached (s : Session C) (k : κ) (ids : List (C k).Id) : Except Error (List (C k).Entity) × Session C :=
  match (C k).schema with
  | .error e => (.error e, s)
  | .ok _ =>
    match s.lockIds k ids.eraseDups with
    | (.error e, s) => (.error e, s)
    | (.ok keys, s) =>
      s.read k s!"find_uncached({keys.length} ids)" (rowsText k) fun shard v =>
        match shard with
        | none => .ok []
        | some shard => s.rowsOfKeys k shard v keys

/-- The entities of a set of identifiers, all complete or all partial in the same fields, in canonical order. -/
def findMany (s : Session C) (k : κ) (ids : List (C k).Id) : Except Error (List (C k).Entity) × Session C :=
  match (s.tx.cache k).merge ids (fun wanted s => s.findUncached k wanted) s with
  | (.error e, c, s) => (.error e, s.setCache k c)
  | (.ok entities, c, s) => (.ok entities, s.setCache k c)

/-- Takes rows through the cache. -/
def absorbRows (s : Session C) (k : κ) :
    Except Error (List (C k).Entity) → Except Error (List (C k).Entity) × Session C
  | .error e => (.error e, s)
  | .ok rows =>
    let (entities, c) := (s.tx.cache k).absorbAll rows
    (.ok entities, s.setCache k c)

/-- The entities of an interval, in canonical order. -/
def findRange (s : Session C) (k : κ) (r : Interval X) : Except Error (List (C k).Entity) × Session C :=
  let s := s.lockScan k (.interval r)
  let (rows, s) := s.read k s!"find({r.text})" (rowsText k) (s.collect k r.containsCells)
  s.absorbRows k rows

/-- All entities, in canonical order. -/
def findAll (s : Session C) (k : κ) : Except Error (List (C k).Entity) × Session C :=
  let s := s.lockScan k .table
  let (rows, s) := s.read k s!"findAll({(C k).table})" (rowsText k) (s.collect k (fun _ => .ok true))
  s.absorbRows k rows

/-- Adds an entity whose identifier must not be taken. -/
def insert (s : Session C) (k : κ) (e : (C k).Entity) : Except Error (C k).Entity × Session C :=
  let e := (C k).onSave e
  match (C k).flatten ((C k).idOf e) with
  | .error err => (.error err, s)
  | .ok cells =>
    match (s.lockRow k cells).write s!"insert({(C k).entityText e})" k ⟨cells, .insert e⟩ with
    | (.error err, s) => (.error err, s)
    | (.ok (), s) => (.ok e, s.setCache k ((s.tx.cache k).put e))

/-- Adds or replaces an entity. -/
def save (s : Session C) (k : κ) (e : (C k).Entity) : Except Error (C k).Entity × Session C :=
  let e := (C k).onSave e
  match (C k).flatten ((C k).idOf e) with
  | .error err => (.error err, s)
  | .ok cells =>
    match s.write s!"save({(C k).entityText e})" k ⟨cells, .save e⟩ with
    | (.error err, s) => (.error err, s)
    | (.ok (), s) => (.ok e, s.setCache k ((s.tx.cache k).put e))

/-- Removes an entity if there is one. -/
def delete (s : Session C) (k : κ) (id : (C k).Id) : Except Error Unit × Session C :=
  match (C k).flatten id with
  | .error err => (.error err, s)
  | .ok cells =>
    match s.write s!"delete({(C k).idText id})" k ⟨cells, .delete⟩ with
    | (.error err, s) => (.error err, s)
    | (.ok (), s) => (.ok (), s.setCache k ((s.tx.cache k).putTombstone id))

/-- Takes one row through the cache. -/
def postLoad (s : Session C) (k : κ) (row : (C k).Entity) : Option (C k).Entity × Session C :=
  let (entity, c) := (s.tx.cache k).absorb row
  (entity, s.setCache k c)

end EntityStore.Session

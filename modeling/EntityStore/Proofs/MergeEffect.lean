import EntityStore.Proofs.CanonicalOrder
import EntityStore.Proofs.Latest
import EntityStore.Cache.Op
/-!
# What a merge does, to the last slot

The answer of the store may be anything: several rows for one identifier, rows that nobody asked for, rows of
identifiers that the cache knows.  `Cache.fate` says what becomes of an identifier in all these cases, and
`Cache.learnt` what its slot is afterwards.  Rows are absorbed one by one into a cache that changes meanwhile;
`get?_absorbRows` and `lookup_absorbRows` say what comes of all of them, and `Cache.merge_effect` is the whole merge.

`Cache.HidesOnly` bounds what a cache has no entity for; every step and every merge keeps it (`HidesOnly.run`,
`HidesOnly.merge`), and that all entities stand under their own identifiers is a case of it.
-/
namespace EntityStore

open Std

variable {X : Scalars}

theorem Dict.Filed.mem_values_iff {α β : Type} [DecidableEq α] {f : β → α} {d : Dict α β} (h : d.Filed f) (v : β) :
    v ∈ d.values ↔ d.get? (f v) = some v := by
  refine ⟨fun hv => ?_, mem_values_of_get?⟩
  obtain ⟨⟨k, w⟩, hp, rfl⟩ := List.mem_map.1 hv
  have hk : f w = k := h.own _ hp
  have hdistinct := h.distinct
  obtain ⟨entries⟩ := d
  unfold get?
  dsimp only at hp hdistinct ⊢
  clear hv h
  induction entries with
  | nil => cases hp
  | cons q rest ih =>
    obtain ⟨hq, hrest⟩ := List.pairwise_cons.1 hdistinct
    rcases List.mem_cons.1 hp with rfl | hp
    · rw [find, if_pos hk.symm]
    · rw [find, if_neg (by rw [hk]; exact hq _ hp)]
      exact ih hp hrest

theorem nodup_eraseDups {α : Type} [DecidableEq α] : ∀ l : List α, l.eraseDups.Nodup
  | [] => List.nodup_nil
  | a :: rest => by
    rw [List.eraseDups_cons, List.nodup_cons]
    exact ⟨by simp [List.mem_eraseDups], nodup_eraseDups _⟩
termination_by l => l.length
decreasing_by exact Nat.lt_succ_of_le (List.length_filter_le ..)

namespace EntityType

variable {E : EntityType X}

/-- The first identifier does not come after the second one. -/
def NotAfter (E : EntityType X) (a b : E.Id) : Prop := ∃ order, E.compareIds a b = .ok order ∧ order ≠ .gt

/-- Sorted entities come in the order of their identifiers, whether or not these have distinct flat forms. -/
theorem pairwise_sortById {entities sorted : List E.Entity} (h : E.sortById entities = .ok sorted) :
    sorted.Pairwise fun a b => E.NotAfter (E.idOf a) (E.idOf b) := by
  obtain ⟨pairs, hpairs, hordered⟩ := inTableOrder_of_sortById h
  rw [← map_snd_of_keyed hpairs, List.pairwise_map]
  refine hordered.imp_of_mem fun {p q} hp hq hpq => ⟨p.1.compare q.1, ?_, Cells.compare_eq p.1 q.1 ▸ hpq⟩
  exact compareIds_of_flatten ((mem_keyed p.1 p.2 hpairs).1 hp).2 ((mem_keyed q.1 q.2 hpairs).1 hq).2

end EntityType

/-- A step on a cache after which it has an identifier for gone. -/
inductive CacheOp.Denies {E : EntityType X} (c : Cache E) (id : E.Id) : CacheOp E → Prop
  | putEmpty : Denies c id (.putEmpty id)
  | putTombstone : Denies c id (.putTombstone id)
  | getOrLoad (unknown : c.lookup id = none) : Denies c id (.getOrLoad id (.ok none))

theorem CacheOp.Denies.exists_answer {E : EntityType X} {c : Cache E} {id : E.Id} {op : CacheOp E}
    (h : op.Denies c id) : ∃ a, (op.run c).1 = .ok a := by
  cases h with
  | putEmpty => exact ⟨(), rfl⟩
  | putTombstone => exact ⟨(), rfl⟩
  | getOrLoad hunknown =>
    have hloads : c.getOrLoad id (.ok none) = (.ok none, c.putEmpty id) := by
      unfold Cache.getOrLoad Cache.contains
      rw [hunknown]
      rfl
    unfold run
    dsimp only
    rw [hloads]
    exact ⟨_, rfl⟩

namespace Cache

variable {E : EntityType X} {σ : Type} {c : Cache E}

/-! ## What stands in a cache -/

/-- Every entity in a cache stands under its own identifier. -/
def Tidy (c : Cache E) : Prop := ∀ id e, c.lookup id = some (.present e) → E.idOf e = id

theorem tidy_iff_holds : c.Tidy ↔ c.Holds fun _ _ => True := by
  constructor
  · intro h id slot hslot
    cases slot with
    | present e => exact ⟨trivial, fun e' he' => by cases he'; exact h id e hslot⟩
    | tombstoned => exact ⟨trivial, nofun⟩
    | absent => exact ⟨trivial, nofun⟩
  · exact fun h id e hslot => (h id _ hslot).2 e rfl

/-! ## What becomes of an identifier -/

/-- The row of an identifier that counts: the first one, or the last one if the cache cannot remember the first. -/
def rowFor (c : Cache E) (rows : List E.Entity) (id : E.Id) : Option E.Entity :=
  let own := rows.filter (fun row => E.idOf row = id)
  if c.enabled then own.head? else own.getLast?

/-- What comes out for an identifier that is asked for or has a row. -/
def fate (c : Cache E) (rows : List E.Entity) (id : E.Id) : Option E.Entity :=
  match c.lookup id with
  | some slot => slot.entity?
  | none => (c.rowFor rows id).map E.onLoad

/-- The slot of an identifier after a merge for `ids`, as an enabled cache has it. -/
def learnt (c : Cache E) (isPartial : Bool) (ids : List E.Id) (rows : List E.Entity) (id : E.Id) :
    Option (Slot E.Entity) :=
  match c.lookup id with
  | some slot => some slot
  | none =>
    match c.rowFor rows id with
    | some row => some (.present (E.onLoad row))
    | none => if isPartial = false ∧ id ∈ ids then some .absent else none

theorem rowFor_cons_of_ne (c : Cache E) {row : E.Entity} (rest : List E.Entity) {id : E.Id} (h : E.idOf row ≠ id) :
    c.rowFor (row :: rest) id = c.rowFor rest id := by
  unfold rowFor
  rw [List.filter_cons_of_neg (by simpa using h)]

theorem rowFor_cons_of_enabled (hc : c.enabled = true) (row : E.Entity) (rest : List E.Entity) :
    c.rowFor (row :: rest) (E.idOf row) = some row := by
  unfold rowFor
  rw [List.filter_cons_of_pos (by simp), hc]
  rfl

theorem rowFor_cons_of_disabled (hc : c.enabled = false) (row : E.Entity) (rest : List E.Entity) :
    c.rowFor (row :: rest) (E.idOf row) = some ((c.rowFor rest (E.idOf row)).getD row) := by
  unfold rowFor
  rw [List.filter_cons_of_pos (by simp), hc]
  exact List.getLast?_cons

theorem rowFor_eq_none_iff (c : Cache E) (rows : List E.Entity) (id : E.Id) :
    c.rowFor rows id = none ↔ rows.any (fun row => E.idOf row = id) = false := by
  unfold rowFor
  dsimp only
  split <;> simp

theorem mem_of_rowFor {rows : List E.Entity} {id : E.Id} {row : E.Entity} (h : c.rowFor rows id = some row) :
    row ∈ rows ∧ E.idOf row = id := by
  have hmem : row ∈ rows.filter fun row => E.idOf row = id := by
    unfold rowFor at h
    dsimp only at h
    split at h
    · exact List.mem_of_head? h
    · exact List.mem_of_getLast? h
  obtain ⟨hrow, hid⟩ := List.mem_filter.1 hmem
  exact ⟨hrow, of_decide_eq_true hid⟩

/-! ## Absorbing rows -/

/-- What the rows bring for an identifier. -/
def brought (c : Cache E) (rows : List E.Entity) (id : E.Id) : Option E.Entity :=
  if rows.any (fun row => E.idOf row = id) then c.fate rows id else none

theorem absorbRows_cons (c : Cache E) (found : Dict E.Id E.Entity) (row : E.Entity) (rest : List E.Entity) :
    c.absorbRows found (row :: rest) =
      (c.absorb row).2.absorbRows ((c.absorb row).1.elim found (found.insert (E.idOf row))) rest := by
  rw [absorbRows]
  generalize c.absorb row = answer
  obtain ⟨e?, c'⟩ := answer
  cases e? <;> rfl

theorem absorb_of_lookup {row : E.Entity} {slot : Slot E.Entity} (h : c.lookup (E.idOf row) = some slot) :
    c.absorb row = (slot.entity?, c) := by
  unfold absorb
  rw [h]

theorem absorb_of_unknown {row : E.Entity} (h : c.lookup (E.idOf row) = none) :
    c.absorb row = (some (E.onLoad row), c.put (E.onLoad row)) := by
  unfold absorb
  rw [h]

theorem enabled_absorb (c : Cache E) (row : E.Entity) : (c.absorb row).2.enabled = c.enabled :=
  (c.learns_absorb row).extends.enabled

theorem lookup_absorb_of_ne (hload : KeepsIds E) (c : Cache E) {row : E.Entity} {id : E.Id} (hid : E.idOf row ≠ id) :
    (c.absorb row).2.lookup id = c.lookup id := by
  cases hslot : c.lookup (E.idOf row) with
  | some slot => rw [absorb_of_lookup hslot]
  | none =>
    rw [absorb_of_unknown hslot]
    show (c.setSlot _ _).lookup id = _
    rw [lookup_setSlot, hload row, if_neg fun h => hid h.2]

theorem rowFor_absorb (c : Cache E) (row : E.Entity) (rows : List E.Entity) (id : E.Id) :
    (c.absorb row).2.rowFor rows id = c.rowFor rows id := by
  unfold rowFor
  rw [enabled_absorb]

theorem brought_of_unknown {id : E.Id} (h : c.lookup id = none) (rows : List E.Entity) :
    c.brought rows id = (c.rowFor rows id).map E.onLoad := by
  unfold brought fate
  rw [h]
  split
  · rfl
  · rename_i hnone
    rw [(c.rowFor_eq_none_iff rows id).2 (Bool.eq_false_iff.2 hnone)]
    rfl

/-- What the first row brings, and then the others: what is absorbed later counts if the cache does not remember it. -/
theorem brought_cons (hload : KeepsIds E) (c : Cache E) (row : E.Entity) (rest : List E.Entity) (id : E.Id)
    (x : Option E.Entity) :
    (c.brought (row :: rest) id).or x =
      ((c.absorb row).2.brought rest id).or (if E.idOf row = id then (c.absorb row).1.or x else x) := by
  by_cases hid : E.idOf row = id
  · subst hid
    rw [if_pos rfl]
    cases hslot : c.lookup (E.idOf row) with
    | some slot =>
      rw [absorb_of_lookup hslot]
      unfold brought fate
      rw [hslot, List.any_cons, decide_eq_true rfl, Bool.true_or, if_pos rfl]
      dsimp only
      generalize slot.entity? = e?
      split <;> cases e? <;> rfl
    | none =>
      rw [brought_of_unknown hslot, absorb_of_unknown hslot]
      cases henabled : c.enabled with
      | true =>
        have hput : (c.put (E.onLoad row)).lookup (E.idOf row) = some (.present (E.onLoad row)) := by
          show (c.setSlot _ _).lookup _ = _
          rw [lookup_setSlot, if_pos ⟨henabled, hload row⟩]
        rw [rowFor_cons_of_enabled henabled]
        unfold brought fate
        rw [hput]
        split <;> rfl
      | false =>
        have hput : c.put (E.onLoad row) = c := if_neg (by rw [henabled]; exact Bool.false_ne_true)
        rw [hput, rowFor_cons_of_disabled henabled, brought_of_unknown hslot]
        cases c.rowFor rest (E.idOf row) <;> rfl
  · unfold brought fate
    rw [if_neg hid, lookup_absorb_of_ne hload c hid, rowFor_absorb, rowFor_cons_of_ne c rest hid, List.any_cons]
    simp [hid]

theorem get?_elim_insert (found : Dict E.Id E.Entity) (j id : E.Id) (e? : Option E.Entity) :
    (e?.elim found (found.insert j)).get? id = if j = id then e?.or (found.get? id) else found.get? id := by
  cases e? with
  | none => simp
  | some e => exact found.get?_insert j id e

/-- **What is found after all rows.** -/
theorem get?_absorbRows (hload : KeepsIds E) (id : E.Id) : ∀ (rows : List E.Entity) (c : Cache E)
    (found : Dict E.Id E.Entity),
    (c.absorbRows found rows).1.get? id = (c.brought rows id).or (found.get? id)
  | [], _, _ => rfl
  | row :: rest, c, found => by
    rw [absorbRows_cons, get?_absorbRows hload id rest, get?_elim_insert, brought_cons hload]

/-- **What a cache knows after all rows.** -/
theorem lookup_absorbRows (hload : KeepsIds E) (id : E.Id) : ∀ (rows : List E.Entity) (c : Cache E)
    (found : Dict E.Id E.Entity), c.enabled = true →
    (c.absorbRows found rows).2.lookup id =
      (c.lookup id).or ((c.rowFor rows id).map fun row => .present (E.onLoad row))
  | [], c, _, _ => by
    have hnone : c.rowFor [] id = none := by simp [rowFor]
    rw [hnone]
    exact Option.or_none.symm
  | row :: rest, c, found, henabled => by
    rw [absorbRows_cons, lookup_absorbRows hload id rest _ _ ((c.enabled_absorb row).trans henabled), rowFor_absorb]
    by_cases hid : E.idOf row = id
    · subst hid
      cases hslot : c.lookup (E.idOf row) with
      | some slot =>
        rw [absorb_of_lookup hslot, hslot]
        rfl
      | none =>
        rw [absorb_of_unknown hslot, rowFor_cons_of_enabled henabled]
        show ((c.setSlot _ _).lookup _).or _ = _
        rw [lookup_setSlot, if_pos ⟨henabled, hload row⟩]
        rfl
    · rw [lookup_absorb_of_ne hload c hid, rowFor_cons_of_ne c rest hid]

theorem lookup_noteMissing (rows : List E.Entity) (id : E.Id) : ∀ (ids : List E.Id) (c : Cache E), c.enabled = true →
    (c.noteMissing rows ids).lookup id =
      if id ∈ ids ∧ rows.any (fun row => E.idOf row = id) = false then some .absent else c.lookup id
  | [], c, _ => by simp [noteMissing]
  | first :: rest, c, henabled => by
    have hrest := lookup_noteMissing rows id rest
    have hstep : c.noteMissing rows (first :: rest) =
        (if rows.any (fun row => E.idOf row = first) then c else c.putEmpty first).noteMissing rows rest := rfl
    rw [hstep]
    split
    · rename_i hrow
      rw [hrest c henabled]
      by_cases hid : id = first
      · subst hid
        simp [hrow]
      · simp [hid]
    · rename_i hrow
      have hnoted : (c.putEmpty first).lookup id = _ := c.lookup_setSlot first id .absent
      rw [hrest (c.putEmpty first) ((c.enabled_setSlot ..).trans henabled), hnoted]
      by_cases hid : id = first
      · subst hid
        simp [hrow, henabled]
      · simp [hid, Ne.symm hid]

theorem get?_held (c : Cache E) (id : E.Id) (ids : List E.Id) :
    (c.held ids).get? id = if id ∈ ids then (c.lookup id).bind Slot.entity? else none := by
  induction ids using List.reverseRecOn with
  | nil => rfl
  | append_singleton ids j ih =>
    have hconcat : c.held (ids ++ [j]) =
        (((c.lookup j).bind Slot.entity?).elim (c.held ids) ((c.held ids).insert j)) := by
      rw [held_concat]
      cases (c.lookup j).bind Slot.entity? <;> rfl
    rw [hconcat, get?_elim_insert, ih]
    by_cases hid : j = id
    · subst hid
      cases (c.lookup j).bind Slot.entity? <;> simp
    · simp [hid, Ne.symm hid]

/-! ## The whole merge -/

theorem samePattern_eq_ok {schema : Schema} (hschema : E.schema = .ok schema) {pattern : List Bool} :
    ∀ {ids : List E.Id}, (∀ id ∈ ids, ∃ p, E.flatten id = .ok p ∧ p.map Option.isNone = pattern) →
      samePattern (E := E) schema pattern ids = .ok ()
  | [], _ => rfl
  | id :: rest, h => by
    obtain ⟨p, hp, hpattern⟩ := h id List.mem_cons_self
    rw [EntityType.flatten_of_schema hschema] at hp
    rw [samePattern, hp]
    dsimp only
    rw [if_pos hpattern]
    exact samePattern_eq_ok hschema fun id' hid' => h id' (List.mem_cons_of_mem id hid')

theorem arePartial_eq_ok {ids : List E.Id} (hne : ids ≠ []) {pattern : List Bool}
    (h : ∀ id ∈ ids, ∃ p, E.flatten id = .ok p ∧ p.map Option.isNone = pattern) :
    arePartial (E := E) ids = .ok (pattern.any fun empty => empty) := by
  obtain ⟨first, rest, rfl⟩ := List.exists_cons_of_ne_nil hne
  obtain ⟨p, hp, hpattern⟩ := h first List.mem_cons_self
  obtain ⟨schema, hschema, -⟩ := EntityType.length_of_flatten hp
  have hrest := samePattern_eq_ok hschema fun id hid => h id (List.mem_cons_of_mem first hid)
  rw [EntityType.flatten_of_schema hschema] at hp
  unfold arePartial
  rw [hschema]
  dsimp only
  rw [hp]
  dsimp only
  rw [hpattern, hrest, ← hpattern, List.any_map]
  rfl

theorem get?_found (hload : KeepsIds E) (c : Cache E) (ids : List E.Id) (rows : List E.Entity) (id : E.Id) :
    (c.absorbRows (c.held ids) rows).1.get? id =
      if id ∈ ids ∨ rows.any (fun row => E.idOf row = id) = true then c.fate rows id else none := by
  rw [get?_absorbRows hload, get?_held]
  cases hslot : c.lookup id with
  | some slot =>
    unfold brought fate
    rw [hslot]
    dsimp only [Option.bind_some]
    by_cases hid : id ∈ ids <;> by_cases hrow : rows.any (fun row => E.idOf row = id) = true <;> simp [hid, hrow]
  | none =>
    have hnone : rows.any (fun row => E.idOf row = id) = false → c.rowFor rows id = none :=
      (c.rowFor_eq_none_iff rows id).2
    rw [brought_of_unknown hslot]
    unfold fate
    rw [hslot]
    by_cases hrow : rows.any (fun row => E.idOf row = id) = true
    · simp [hrow]
    · simp [hnone (Bool.eq_false_iff.2 hrow)]

/-- A merge asks once for what the cache does not know, if there is such, and goes on with the answer. -/
theorem merge_eq (c : Cache E) {ids : List E.Id} (hne : ids ≠ []) {isPartial : Bool}
    (hpartial : arePartial (E := E) ids.eraseDups = .ok isPartial)
    (ask : List E.Id → σ → Except Error (List E.Entity) × σ) (s : σ) :
    let wanted := c.unknown ids.eraseDups
    let asked := if wanted = [] then (.ok [], s) else ask wanted s
    c.merge ids ask s =
      ((c.mergeAnswer ids isPartial asked.1).1, (c.mergeAnswer ids isPartial asked.1).2, asked.2) := by
  intro wanted asked
  have hasked : (if wanted.isEmpty then (.ok [], s) else ask wanted s) = asked := by
    simp only [List.isEmpty_iff]
    rfl
  unfold merge
  rw [if_neg (by simpa using hne)]
  dsimp only
  rw [hpartial]
  dsimp only
  rw [hasked]
  generalize asked = r
  obtain ⟨answer, s'⟩ := r
  cases answer <;> rfl

/-! ## What a cache hides -/

/-- The identifier is known, and there is no entity for it. -/
def Hides (c : Cache E) (id : E.Id) : Prop := ∃ slot, c.lookup id = some slot ∧ slot.entity? = none

/-- A cache hides only what is gone, and has every entity under its own identifier. -/
def HidesOnly (gone : E.Id → Prop) (c : Cache E) : Prop := c.Holds fun id e? => e? = none → gone id

theorem tidy_iff_hidesOnly : c.Tidy ↔ c.HidesOnly fun _ => True :=
  tidy_iff_holds.trans ⟨fun h => h.mono fun _ _ _ _ => trivial, fun h => h.mono fun _ _ _ => trivial⟩

namespace HidesOnly

variable {gone gone' : E.Id → Prop}

theorem gone_of_hides (h : c.HidesOnly gone) {id : E.Id} (hid : c.Hides id) : gone id := by
  obtain ⟨slot, hslot, hnone⟩ := hid
  exact (h id slot hslot).1 hnone

theorem mono (h : c.HidesOnly gone) (hgone : ∀ id, gone id → gone' id) : c.HidesOnly gone' :=
  Holds.mono h fun id _ hV hnone => hgone id (hV hnone)

theorem tidy (h : c.HidesOnly gone) : c.Tidy := tidy_iff_hidesOnly.2 (h.mono fun _ _ => trivial)

theorem setSlot (h : c.HidesOnly gone) {id : E.Id} {slot : Slot E.Entity} (hgone : slot.entity? = none → gone id)
    (hown : ∀ e ∈ slot.entity?, E.idOf e = id) : (c.setSlot id slot).HidesOnly gone :=
  Holds.setSlot h hgone hown

theorem overwrite (h : c.HidesOnly gone) (hc : c.enabled = true) {id : E.Id} {slot : Slot E.Entity}
    (hgone : slot.entity? = none → gone' id) (hown : ∀ e ∈ slot.entity?, E.idOf e = id)
    (hkept : ∀ j, j ≠ id → gone j → gone' j) : (c.setSlot id slot).HidesOnly gone' :=
  Holds.overwrite h hc hgone hown fun j hj _ hV hnone => hkept j hj (hV hnone)

theorem put (h : c.HidesOnly gone) (e : E.Entity) : (c.put e).HidesOnly gone :=
  h.setSlot nofun fun e' he' => by cases he'; rfl

theorem settle (h : c.HidesOnly gone) {id : E.Id} {e? : Option E.Entity} (hgone : e? = none → gone id) :
    (c.settle id e?).HidesOnly gone := by
  cases e? with
  | none => exact h.setSlot hgone nofun
  | some e => exact h.put e

theorem absorb (h : c.HidesOnly gone) (row : E.Entity) : (c.absorb row).2.HidesOnly gone := by
  unfold Cache.absorb
  split
  · exact h
  · exact h.put _

theorem absorbAll : ∀ (rows : List E.Entity) {c : Cache E}, c.HidesOnly gone → (c.absorbAll rows).2.HidesOnly gone
  | [], _, h => h
  | row :: rest, _, h => absorbAll rest (h.absorb row)

theorem absorbRows : ∀ (rows : List E.Entity) {c : Cache E} {found : Dict E.Id E.Entity}, c.HidesOnly gone →
    (c.absorbRows found rows).2.HidesOnly gone
  | [], _, _, h => h
  | row :: rest, c, found, h => by
    rw [absorbRows_cons]
    exact absorbRows rest (h.absorb row)

theorem mergeAnswer (h : c.HidesOnly gone) (ids : List E.Id) (isPartial : Bool) (answer : Except Error (List E.Entity))
    (hmissing : isPartial = false → ∀ rows, answer = .ok rows → ∀ id ∈ c.unknown ids.eraseDups,
      (∀ row ∈ rows, E.idOf row ≠ id) → gone id) : (c.mergeAnswer ids isPartial answer).2.HidesOnly gone := by
  cases answer with
  | error e => exact h
  | ok rows =>
    have habsorbed : (c.absorbRows (c.held ids.eraseDups) rows).2.HidesOnly gone := h.absorbRows rows
    cases isPartial with
    | true => exact habsorbed
    | false => exact (Holds.noteMissing _ habsorbed fun id hid hrows _ => hmissing rfl rows rfl id hid hrows).1

/-- A merge hides no more than complete identifiers for which the store has no row. -/
theorem merge (h : c.HidesOnly gone) (ids : List E.Id) (ask : List E.Id → σ → Except Error (List E.Entity) × σ) (s : σ)
    (hmissing : arePartial (E := E) ids.eraseDups = .ok false → ∀ rows,
      (ask (c.unknown ids.eraseDups) s).1 = .ok rows →
        (c.merge ids ask s).2.2 = (ask (c.unknown ids.eraseDups) s).2 →
          ∀ id ∈ c.unknown ids.eraseDups, (∀ row ∈ rows, E.idOf row ≠ id) → gone id) :
    (c.merge ids ask s).2.1.HidesOnly gone := by
  by_cases hne : ids = []
  · subst hne
    exact h
  cases hpartial : arePartial (E := E) ids.eraseDups with
  | error e =>
    unfold Cache.merge
    rw [if_neg (by simpa using hne)]
    dsimp only
    rw [hpartial]
    exact h
  | ok isPartial =>
    have hmerge := c.merge_eq hne hpartial ask s
    dsimp only at hmerge
    rw [hmerge] at hmissing ⊢
    refine h.mergeAnswer ids isPartial _ fun hcomplete rows hrows id hid => ?_
    have hasked : c.unknown ids.eraseDups ≠ [] := List.ne_nil_of_mem hid
    rw [if_neg hasked] at hrows hmissing
    exact hmissing (hcomplete ▸ hpartial) rows hrows rfl id hid

theorem run (h : c.HidesOnly gone) {op : CacheOp E} (hgone : ∀ id, op.Denies c id → gone id) :
    (op.run c).2.HidesOnly gone := by
  cases op with
  | getOrLoad id load =>
    show (c.getOrLoad id load).2.HidesOnly gone
    unfold getOrLoad contains
    cases hslot : c.lookup id with
    | some slot => exact h
    | none =>
      cases load with
      | error e => exact h
      | ok e? =>
        refine h.settle fun hnone => ?_
        subst hnone
        exact hgone id (.getOrLoad hslot)
  | put e => exact h.put e
  | putEmpty id => exact h.setSlot (fun _ => hgone id .putEmpty) nofun
  | putTombstone id => exact h.setSlot (fun _ => hgone id .putTombstone) nofun
  | _ => exact h

end HidesOnly

theorem Tidy.run (h : c.Tidy) (op : CacheOp E) : (op.run c).2.Tidy :=
  ((tidy_iff_hidesOnly.1 h).run fun _ _ => trivial).tidy

theorem Tidy.merge (h : c.Tidy) (ids : List E.Id) (ask : List E.Id → σ → Except Error (List E.Entity) × σ) (s : σ) :
    (c.merge ids ask s).2.1.Tidy :=
  ((tidy_iff_hidesOnly.1 h).merge ids ask s fun _ _ _ _ _ _ _ => trivial).tidy

theorem tidy_history (enabled : Bool) (ops : List (CacheOp E)) :
    (ops.foldl (fun c op => (op.run c).2) ({ enabled } : Cache E)).Tidy := by
  have h : ({ enabled } : Cache E).Tidy := nofun
  generalize ({ enabled } : Cache E) = c at h ⊢
  induction ops generalizing c with
  | nil => exact h
  | cons op ops ih => exact ih _ (h.run op)

/-! ## What comes of a merge -/

theorem mem_unknown_iff (c : Cache E) (ids : List E.Id) (id : E.Id) :
    id ∈ c.unknown ids.eraseDups ↔ id ∈ ids ∧ c.lookup id = none := by
  unfold unknown contains
  rw [List.mem_filter, List.mem_eraseDups]
  simp

theorem lookup_mergeAnswer (hload : KeepsIds E) (hc : c.enabled = true) (ids : List E.Id) (isPartial : Bool)
    (rows : List E.Entity) (id : E.Id) :
    (c.mergeAnswer ids isPartial (.ok rows)).2.lookup id = c.learnt isPartial ids rows id := by
  have habsorbed := lookup_absorbRows hload id rows c (c.held ids.eraseDups) hc
  have henabled := (learns_absorbRows rows c (c.held ids.eraseDups)).extends.enabled.trans hc
  unfold mergeAnswer learnt
  dsimp only
  generalize c.absorbRows (c.held ids.eraseDups) rows = absorbed at habsorbed henabled
  cases isPartial with
  | true =>
    rw [if_pos rfl, habsorbed]
    cases c.lookup id with
    | some slot => rfl
    | none => cases c.rowFor rows id <;> simp
  | false =>
    have hrow := c.rowFor_eq_none_iff rows id
    rw [if_neg Bool.false_ne_true, lookup_noteMissing rows id _ _ henabled, habsorbed]
    simp only [mem_unknown_iff]
    cases c.lookup id with
    | some slot => simp
    | none =>
      cases hfor : c.rowFor rows id with
      | some row => simp [← hrow, hfor]
      | none => simp [hrow.1 hfor]

theorem lists_mergeAnswer (hc : c.Tidy) (hload : KeepsIds E) {ids : List E.Id} (hne : ids ≠ []) {rows : List E.Entity}
    (hids : ∀ id ∈ ids, ∃ p, E.flatten id = .ok p) (hrows : ∀ row ∈ rows, ∃ p, E.flatten (E.idOf row) = .ok p)
    (isPartial : Bool) :
    ∃ es, (c.mergeAnswer ids isPartial (.ok rows)).1 = .ok es ∧ (es.map E.idOf).Nodup ∧
      (es.Pairwise fun a b => E.NotAfter (E.idOf a) (E.idOf b)) ∧
      ∀ e, e ∈ es ↔ (E.idOf e ∈ ids ∨ ∃ row ∈ rows, E.idOf row = E.idOf e) ∧ c.fate rows (E.idOf e) = some e := by
  have hholds := tidy_iff_holds.1 hc
  have hfiled := hholds.filed_absorbRows hload rows (fun _ _ _ => trivial) (hholds.filed_held ids.eraseDups)
  have hfound := fun id => c.get?_found hload ids.eraseDups rows id
  show ∃ es, E.sortById (c.absorbRows (c.held ids.eraseDups) rows).1.values = .ok es ∧ _
  generalize (c.absorbRows (c.held ids.eraseDups) rows).1 = found at hfiled hfound
  have hmem : ∀ e, e ∈ found.values ↔
      (E.idOf e ∈ ids ∨ ∃ row ∈ rows, E.idOf row = E.idOf e) ∧ c.fate rows (E.idOf e) = some e := by
    intro e
    rw [hfiled.mem_values_iff, hfound]
    simp [List.mem_eraseDups]
  have hflat : ∀ e ∈ found.values, ∃ p, E.flatten (E.idOf e) = .ok p := by
    intro e he
    rcases ((hmem e).1 he).1 with hid | ⟨row, hrow, hid⟩
    · exact hids _ hid
    · exact hid ▸ hrows row hrow
  obtain ⟨first, hfirst⟩ := List.exists_mem_of_ne_nil ids hne
  obtain ⟨p, hp⟩ := hids first hfirst
  obtain ⟨schema, hschema, -⟩ := EntityType.length_of_flatten hp
  obtain ⟨es, hes⟩ := EntityType.exists_sortById hschema hflat
  refine ⟨es, hes, ?_, EntityType.pairwise_sortById hes, fun e => (E.mem_sortById_iff hes e).trans (hmem e)⟩
  rw [((EntityType.sortById_perm hes).map E.idOf).nodup_iff, List.nodup_iff_pairwise_ne, List.pairwise_map]
  exact hfiled.pairwise_values

/-- **What a merge does.**  It asks the store once, for the identifiers that the cache does not know, and not at all if
there are none. -/
theorem merge_effect {c : Cache E} (hc : c.Tidy) (hload : KeepsIds E) {ids : List E.Id} (hne : ids ≠ [])
    {pattern : List Bool} (hids : ∀ id ∈ ids, ∃ p, E.flatten id = .ok p ∧ p.map Option.isNone = pattern)
    (ask : List E.Id → σ → Except Error (List E.Entity) × σ) (s : σ) :
    ∃ wanted : List E.Id, wanted.Nodup ∧ (∀ id, id ∈ wanted ↔ id ∈ ids ∧ c.lookup id = none) ∧
      match (if wanted = [] then (.ok [], s) else ask wanted s) with
      | (.error e, s') => c.merge ids ask s = (.error e, c, s')
      | (.ok rows, s') =>
        (c.merge ids ask s).2.2 = s' ∧
        (c.enabled = false → (c.merge ids ask s).2.1 = c) ∧
        (c.enabled = true → ∀ id, (c.merge ids ask s).2.1.lookup id =
          c.learnt (pattern.any fun empty => empty) ids rows id) ∧
        ((∀ row ∈ rows, ∃ p, E.flatten (E.idOf row) = .ok p) →
          ∃ es, (c.merge ids ask s).1 = .ok es ∧ (es.map E.idOf).Nodup ∧
            (es.Pairwise fun a b => E.NotAfter (E.idOf a) (E.idOf b)) ∧
            ∀ e, e ∈ es ↔ (E.idOf e ∈ ids ∨ ∃ row ∈ rows, E.idOf row = E.idOf e) ∧
              c.fate rows (E.idOf e) = some e) := by
  have hdups : ids.eraseDups ≠ [] := by
    obtain ⟨id, hid⟩ := List.exists_mem_of_ne_nil ids hne
    exact List.ne_nil_of_mem (List.mem_eraseDups.2 hid)
  have hpartial := arePartial_eq_ok hdups fun id hid => hids id (List.mem_eraseDups.1 hid)
  have hmerge := c.merge_eq hne hpartial ask s
  have hlearns := c.learns_merge ids ask s
  refine ⟨c.unknown ids.eraseDups, (nodup_eraseDups ids).filter _, c.mem_unknown_iff ids, ?_⟩
  dsimp only at hmerge
  generalize (if c.unknown ids.eraseDups = [] then (Except.ok [], s) else ask (c.unknown ids.eraseDups) s) = asked
    at hmerge ⊢
  obtain ⟨answer, s'⟩ := asked
  cases answer with
  | error e => exact hmerge
  | ok rows =>
    dsimp only at hmerge ⊢
    rw [hmerge] at hlearns ⊢
    refine ⟨rfl, hlearns.eq_of_disabled, fun henabled => lookup_mergeAnswer hload henabled ids _ rows, fun hrows => ?_⟩
    exact lists_mergeAnswer hc hload hne (fun id hid => (hids id hid).imp fun _ => And.left) hrows
      (pattern.any fun empty => empty)

end Cache

namespace Sample

/-- One account is in the cache, another one has been deleted. -/
def remembering : Cache (marked ()) :=
  ([.put (Account.mk ⟨"first"⟩ "" 100), .putTombstone (AccountId.mk "second")] : List (CacheOp (marked ()))).foldl
    (fun c op => (op.run c).2) {}

/-- A store that answers with rows for the accounts in the cache, two rows for a third one, and one for a fifth one,
and counts its questions. -/
def repeating (_ : List AccountId) (n : Nat) : Except Error (List Account) × Nat :=
  (.ok [⟨⟨"first"⟩, "", 7⟩, ⟨⟨"second"⟩, "", 8⟩, ⟨⟨"third"⟩, "", 1⟩, ⟨⟨"third"⟩, "", 2⟩, ⟨⟨"fifth"⟩, "", 5⟩], n + 1)

end Sample

open Sample in
theorem Cache.merge_effect_of_repeating :
    let ids : List AccountId := [⟨"first"⟩, ⟨"second"⟩, ⟨"third"⟩, ⟨"fourth"⟩]
    let merged := remembering.merge ids repeating 0
    remembering.Tidy ∧ KeepsIds (marked ()) ∧ merged.2.2 = 1 ∧
      (∃ es : List Account, merged.1 = .ok es ∧ ⟨⟨"first"⟩, "", 100⟩ ∈ es ∧ ⟨⟨"third"⟩, "", 2⟩ ∈ es ∧
        ⟨⟨"fifth"⟩, "", 6⟩ ∈ es ∧ ∀ e ∈ es, e.id ≠ ⟨"second"⟩ ∧ e.id ≠ ⟨"fourth"⟩) ∧
      merged.2.1.lookup ⟨"second"⟩ = some .tombstoned ∧ merged.2.1.lookup ⟨"third"⟩ = some (.present ⟨⟨"third"⟩, "", 2⟩) ∧
      merged.2.1.lookup ⟨"fourth"⟩ = some .absent ∧ merged.2.1.lookup ⟨"fifth"⟩ = some (.present ⟨⟨"fifth"⟩, "", 6⟩) := by
  intro ids merged
  have htidy : remembering.Tidy := Cache.tidy_history true _
  have hload : KeepsIds (marked ()) := wellIdentified_marked.keepsIds ()
  have hids : ∀ id ∈ ids, ∃ p, (marked ()).flatten id = .ok p ∧ p.map Option.isNone = [false] :=
    fun id _ => ⟨_, flatten_marked id, rfl⟩
  obtain ⟨wanted, -, hwanted, heffect⟩ := Cache.merge_effect htidy hload (List.cons_ne_nil _ _) hids repeating 0
  have hthird : (⟨"third"⟩ : AccountId) ∈ ids := .tail _ (.tail _ (.head _))
  obtain ⟨_, _, rfl⟩ := List.exists_cons_of_ne_nil (List.ne_nil_of_mem ((hwanted ⟨"third"⟩).2 ⟨hthird, rfl⟩))
  obtain ⟨hcount, -, hlookup, hanswer⟩ := heffect
  obtain ⟨es, hes, -, -, hmem⟩ := hanswer fun row _ => ⟨_, flatten_marked _⟩
  refine ⟨htidy, hload, hcount, ⟨es, hes, (hmem _).2 ⟨.inl (.head _), rfl⟩, (hmem _).2 ⟨.inl hthird, rfl⟩,
    (hmem _).2 ⟨.inr ⟨⟨⟨"fifth"⟩, "", 5⟩, ?_, rfl⟩, rfl⟩, fun e he => ⟨fun hid => ?_, fun hid => ?_⟩⟩,
    hlookup rfl _, hlookup rfl _, hlookup rfl _, hlookup rfl _⟩
  · exact .tail _ (.tail _ (.tail _ (.tail _ (.head _))))
  · have hfate := ((hmem e).1 he).2
    rw [show (marked ()).idOf e = ⟨"second"⟩ from hid] at hfate
    cases hfate
  · have hfate := ((hmem e).1 he).2
    rw [show (marked ()).idOf e = ⟨"fourth"⟩ from hid] at hfate
    cases hfate

end EntityStore

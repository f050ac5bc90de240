import EntityStore.Cache.Merge
import Mathlib.Data.List.Basic
/-!
# What a cache knows is so

`Cache.Holds V` says that every slot of a cache agrees with a view `V` of the entities under their identifiers.  Writes
keep it up if the view follows them.  Reads keep it up, and give out nothing but what is in the view, if the view agrees
with the rows of those identifiers that the cache does not know: a known identifier is answered from its slot whatever
the row says (`Holds.absorb`, `Holds.absorbAll`, `Holds.merge`).
-/
namespace EntityStore

variable {X : Scalars}

theorem Dict.mem_values_insert {α β : Type} [DecidableEq α] {d : Dict α β} {k : α} {v w : β}
    (h : w ∈ (d.insert k v).values) : w = v ∨ w ∈ d.values := by
  obtain ⟨entries⟩ := d
  have hput : ∀ l : List (α × β), w ∈ (put k v l).map Prod.snd → w = v ∨ w ∈ l.map Prod.snd := by
    intro l
    induction l with
    | nil => simp [put]
    | cons p rest ih =>
      obtain ⟨k', u⟩ := p
      unfold put
      split
      · simp only [List.map_cons, List.mem_cons]
        exact Or.imp_right .inr
      · simp only [List.map_cons, List.mem_cons]
        rintro (rfl | hw)
        · exact .inr (.inl rfl)
        · exact (ih hw).imp_right .inr
  exact hput entries h

theorem Dict.mem_values_of_get? {α β : Type} [DecidableEq α] {d : Dict α β} {k : α} {v : β} (h : d.get? k = some v) :
    v ∈ d.values := by
  obtain ⟨entries⟩ := d
  induction entries with
  | nil => cases h
  | cons p rest ih =>
    obtain ⟨k', w⟩ := p
    change (if k' = k then some w else find k rest) = some v at h
    split at h
    · cases h
      exact List.mem_cons_self
    · exact List.mem_cons_of_mem w (ih h)

variable {E : EntityType X}

namespace EntityType

theorem map_snd_of_keyed : ∀ {entities : List E.Entity} {pairs : List (Cells X × E.Entity)},
    E.keyed entities = .ok pairs → pairs.map Prod.snd = entities
  | [], _, h => by
    cases h
    rfl
  | first :: rest, pairs, h => by
    unfold keyed at h
    split at h
    · cases h
    · split at h
      · cases h
      · rename_i more hmore
        cases h
        rw [List.map_cons, map_snd_of_keyed hmore]

theorem mergeSort_of_ordered {α β : Type} (f : List α → β) {pairs rows : List (Cells X × α)} (h : pairs = rows)
    (hordered : rows.Pairwise fun p q => p.1.compare q.1 ≠ .gt) :
    f ((pairs.mergeSort fun p q => p.1.compare q.1 ≠ .gt).map Prod.snd) = f (rows.map Prod.snd) := by
  rw [h, List.mergeSort_of_pairwise (hordered.imp decide_eq_true)]

theorem sortById_perm {entities sorted : List E.Entity} (h : E.sortById entities = .ok sorted) :
    sorted.Perm entities := by
  obtain ⟨-, pairs, -, hpairs, rfl⟩ := sortById_eq_ok_iff.1 h
  rw [← map_snd_of_keyed hpairs]
  exact (List.mergeSort_perm ..).map Prod.snd

theorem mem_sortById_iff {entities sorted : List E.Entity} (h : E.sortById entities = .ok sorted) (e : E.Entity) :
    e ∈ sorted ↔ e ∈ entities := (sortById_perm h).mem_iff

end EntityType

namespace Cache

variable {V W : E.Id → Option E.Entity → Prop} {c c' c'' : Cache E}

/-- Every slot of a cache is what a view has under the identifier, and its entity is the identifier's own. -/
def Holds (V : E.Id → Option E.Entity → Prop) (c : Cache E) : Prop :=
  ∀ id slot, c.lookup id = some slot → V id slot.entity? ∧ ∀ e ∈ slot.entity?, E.idOf e = id

/-- A cache has learnt something, and forgotten nothing. -/
structure Extends (c c' : Cache E) : Prop where
  enabled : c'.enabled = c.enabled
  known : ∀ id, c'.lookup id = none → c.lookup id = none

theorem Extends.refl (c : Cache E) : Extends c c := ⟨rfl, fun _ h => h⟩

theorem Extends.trans (h : Extends c c') (h' : Extends c' c'') : Extends c c'' :=
  ⟨h'.enabled.trans h.enabled, fun id hid => h.known id (h'.known id hid)⟩

theorem extends_setSlot (c : Cache E) (id : E.Id) (slot : Slot E.Entity) : Extends c (c.setSlot id slot) where
  enabled := c.enabled_setSlot id slot
  known j hj := by
    rw [lookup_setSlot] at hj
    split at hj
    · cases hj
    · exact hj

theorem Holds.mono (h : c.Holds V) (hVW : ∀ id e?, V id e? → W id e?) : c.Holds W :=
  fun id slot hslot => ⟨hVW id _ (h id slot hslot).1, (h id slot hslot).2⟩

theorem Holds.setSlot (h : c.Holds V) {id : E.Id} {slot : Slot E.Entity} (hV : V id slot.entity?)
    (hid : ∀ e ∈ slot.entity?, E.idOf e = id) : (c.setSlot id slot).Holds V := by
  intro j slot' hslot
  rw [lookup_setSlot] at hslot
  split at hslot
  · rename_i hj
    cases hslot
    exact hj.2 ▸ ⟨hV, hid⟩
  · exact h j slot' hslot

/-- A slot that is written over agrees with a view that has changed under its identifier alone. -/
theorem Holds.overwrite (h : c.Holds V) (hc : c.enabled = true) {id : E.Id} {slot : Slot E.Entity}
    (hW : W id slot.entity?) (hid : ∀ e ∈ slot.entity?, E.idOf e = id)
    (hVW : ∀ id', id' ≠ id → ∀ e?, V id' e? → W id' e?) : (c.setSlot id slot).Holds W := by
  intro j slot' hslot
  rw [lookup_setSlot] at hslot
  split at hslot
  · rename_i hj
    cases hslot
    exact hj.2 ▸ ⟨hW, hid⟩
  · rename_i hj
    obtain ⟨hV, hown⟩ := h j slot' hslot
    exact ⟨hVW j (fun he => hj ⟨hc, he.symm⟩) _ hV, hown⟩

/-- The answer of a point read is remembered under the identifier that was asked for. -/
theorem Holds.settle (h : c.Holds V) {id : E.Id} {e? : Option E.Entity} (hV : V id e?)
    (hid : ∀ e ∈ e?, E.idOf e = id) : (c.settle id e?).Holds V ∧ Extends c (c.settle id e?) := by
  cases e? with
  | none => exact ⟨h.setSlot hV nofun, c.extends_setSlot id .absent⟩
  | some e =>
    have hown : E.idOf e = id := hid e rfl
    refine ⟨h.setSlot (hown ▸ hV) ?_, c.extends_setSlot (E.idOf e) (.present e)⟩
    intro e' he'
    cases he'
    rfl

/-- The load hook leaves the identifiers of entities as they are. -/
def KeepsIds (E : EntityType X) : Prop := ∀ e : E.Entity, E.idOf (E.onLoad e) = E.idOf e

/-- A view agrees with a row, unless a cache knows better. -/
def Agrees (V : E.Id → Option E.Entity → Prop) (c : Cache E) (row : E.Entity) : Prop :=
  c.lookup (E.idOf row) = none → V (E.idOf row) (some (E.onLoad row))

theorem Agrees.extends {row : E.Entity} (h : Agrees V c row) (hc : Extends c c') : Agrees V c' row :=
  fun hnone => h (hc.known _ hnone)

/-- **A row comes out as the view has it, or not at all.** -/
theorem Holds.absorb (h : c.Holds V) (hload : KeepsIds E) {row : E.Entity} (hrow : Agrees V c row) :
    (c.absorb row).2.Holds V ∧ Extends c (c.absorb row).2 ∧
      ∀ e ∈ (c.absorb row).1, V (E.idOf e) (some e) := by
  unfold Cache.absorb
  cases hslot : c.lookup (E.idOf row) with
  | some slot =>
    obtain ⟨hV, hid⟩ := h _ slot hslot
    refine ⟨h, .refl c, fun e he => ?_⟩
    dsimp only at he
    rw [hid e he, ← Option.mem_def.1 he]
    exact hV
  | none =>
    have hV := hrow hslot
    rw [← hload row] at hV
    refine ⟨h.setSlot hV ?_, c.extends_setSlot _ _, ?_⟩
    · intro e he
      cases he
      rfl
    · intro e he
      cases he
      exact hV

theorem Holds.absorbAll (hload : KeepsIds E) : ∀ (rows : List E.Entity) {c : Cache E}, c.Holds V →
    (∀ row ∈ rows, Agrees V c row) →
    (c.absorbAll rows).2.Holds V ∧ Extends c (c.absorbAll rows).2 ∧
      ∀ e ∈ (c.absorbAll rows).1, V (E.idOf e) (some e)
  | [], c, h, _ => ⟨h, .refl c, nofun⟩
  | row :: rest, c, h, hrows => by
    obtain ⟨hfirst, hlearnt, hgiven⟩ := h.absorb hload (hrows row List.mem_cons_self)
    obtain ⟨hrest, hmore, hothers⟩ := Holds.absorbAll hload rest hfirst
      fun row' hrow' => (hrows row' (List.mem_cons_of_mem row hrow')).extends hlearnt
    refine ⟨hrest, hlearnt.trans hmore, fun e he => ?_⟩
    rcases List.mem_append.1 he with he | he
    · exact hgiven e (Option.mem_toList.1 he)
    · exact hothers e he

theorem Holds.absorbRows (hload : KeepsIds E) : ∀ (rows : List E.Entity) {c : Cache E} {found : Dict E.Id E.Entity},
    c.Holds V → (∀ row ∈ rows, Agrees V c row) → (∀ e ∈ found.values, V (E.idOf e) (some e)) →
    (c.absorbRows found rows).2.Holds V ∧ Extends c (c.absorbRows found rows).2 ∧
      ∀ e ∈ (c.absorbRows found rows).1.values, V (E.idOf e) (some e)
  | [], c, _, h, _, hfound => ⟨h, .refl c, hfound⟩
  | row :: rest, c, found, h, hrows, hfound => by
    obtain ⟨hfirst, hlearnt, hgiven⟩ := h.absorb hload (hrows row List.mem_cons_self)
    have hagrees := fun row' hrow' => (hrows row' (List.mem_cons_of_mem row hrow')).extends hlearnt
    rw [Cache.absorbRows]
    generalize c.absorb row = answer at hfirst hlearnt hgiven hagrees
    obtain ⟨e?, c'⟩ := answer
    cases e? with
    | none =>
      obtain ⟨hrest, hmore, hothers⟩ := Holds.absorbRows hload rest hfirst hagrees hfound
      exact ⟨hrest, hlearnt.trans hmore, hothers⟩
    | some e =>
      have hfound' : ∀ e' ∈ (found.insert (E.idOf row) e).values, V (E.idOf e') (some e') := by
        intro e' he'
        rcases Dict.mem_values_insert he' with rfl | he'
        · exact hgiven e' rfl
        · exact hfound e' he'
      obtain ⟨hrest, hmore, hothers⟩ := Holds.absorbRows hload rest hfirst hagrees hfound'
      exact ⟨hrest, hlearnt.trans hmore, hothers⟩

theorem held_concat (c : Cache E) (ids : List E.Id) (id : E.Id) :
    c.held (ids ++ [id]) =
      match (c.lookup id).bind Slot.entity? with
      | some e => (c.held ids).insert id e
      | none => c.held ids := by
  unfold held
  rw [List.foldl_append]
  cases hfound : (c.lookup id).bind Slot.entity? <;> simp only [List.foldl_cons, List.foldl_nil, hfound]

theorem Holds.held (h : c.Holds V) (ids : List E.Id) : ∀ e ∈ (c.held ids).values, V (E.idOf e) (some e) := by
  unfold Cache.held
  have hfound : ∀ e ∈ ({} : Dict E.Id E.Entity).values, V (E.idOf e) (some e) := fun e he =>
    absurd he List.not_mem_nil
  generalize ({} : Dict E.Id E.Entity) = found at hfound ⊢
  induction ids generalizing found with
  | nil => exact hfound
  | cons id rest ih =>
    rw [List.foldl_cons]
    refine ih _ ?_
    split
    · rename_i e he
      obtain ⟨slot, hslot, he⟩ := Option.bind_eq_some_iff.1 he
      obtain ⟨hV, hid⟩ := h id slot hslot
      intro e' he'
      rcases Dict.mem_values_insert he' with rfl | he'
      · rw [hid e' he, ← he]
        exact hV
      · exact hfound e' he'
    · exact hfound

theorem Holds.noteMissing {rows : List E.Entity} : ∀ (ids : List E.Id) {c : Cache E}, c.Holds V →
    (∀ id ∈ ids, (∀ row ∈ rows, E.idOf row ≠ id) → V id none) →
    (c.noteMissing rows ids).Holds V ∧ Extends c (c.noteMissing rows ids)
  | [], c, h, _ => ⟨h, .refl c⟩
  | id :: rest, c, h, hmissing => by
    have hrest := fun id' hid' => hmissing id' (List.mem_cons_of_mem id hid')
    unfold Cache.noteMissing
    rw [List.foldl_cons]
    split
    · exact Holds.noteMissing rest h hrest
    · rename_i hrows
      have hV : V id none := by
        refine hmissing id List.mem_cons_self fun row hrow hid => hrows ?_
        exact List.any_eq_true.2 ⟨row, hrow, decide_eq_true hid⟩
      have hnoted : (c.putEmpty id).Holds V := h.setSlot hV nofun
      obtain ⟨hholds, hext⟩ := Holds.noteMissing rest hnoted hrest
      exact ⟨hholds, (c.extends_setSlot id .absent).trans hext⟩

/-- Identifiers with the same empty fields have flat forms, all of them partial or none. -/
theorem flatten_of_samePattern {schema : Schema} (hschema : E.schema = .ok schema) {pattern : List Bool} :
    ∀ {ids : List E.Id}, samePattern (E := E) schema pattern ids = .ok () →
      ∀ id ∈ ids, ∃ p, E.flatten id = .ok p ∧ Cells.isPartial p = pattern.any fun empty => empty
  | first :: rest, h, id, hid => by
    unfold samePattern at h
    cases hp : schema.flatten (E.node first) with
    | error e =>
      rw [hp] at h
      cases h
    | ok p =>
      rw [hp] at h
      dsimp only at h
      split at h
      · rename_i hpattern
        rcases List.mem_cons.1 hid with rfl | hid
        · refine ⟨p, (EntityType.flatten_of_schema hschema _).trans hp, ?_⟩
          rw [← hpattern, List.any_map]
          rfl
        · exact flatten_of_samePattern hschema h id hid
      · cases h

theorem flatten_of_arePartial {ids : List E.Id} {isPartial : Bool} (h : arePartial (E := E) ids = .ok isPartial) :
    ∀ id ∈ ids, ∃ p, E.flatten id = .ok p ∧ Cells.isPartial p = isPartial := by
  unfold arePartial at h
  cases hschema : E.schema with
  | error e =>
    rw [hschema] at h
    cases h
  | ok schema =>
    rw [hschema] at h
    cases ids with
    | nil => nofun
    | cons first rest =>
      dsimp only at h
      cases hp : schema.flatten (E.node first) with
      | error e =>
        rw [hp] at h
        cases h
      | ok p =>
        rw [hp] at h
        dsimp only at h
        cases hsame : samePattern (E := E) schema (p.map Option.isNone) rest with
        | error e =>
          rw [hsame] at h
          cases h
        | ok u =>
          rw [hsame] at h
          cases h
          intro id hid
          rcases List.mem_cons.1 hid with rfl | hid
          · exact ⟨p, (EntityType.flatten_of_schema hschema _).trans hp, rfl⟩
          · obtain ⟨p', hflat, hpartial⟩ := flatten_of_samePattern hschema hsame id hid
            refine ⟨p', hflat, hpartial.trans ?_⟩
            rw [List.any_map]
            rfl

theorem merge_eq_ok {σ : Type} {ids : List E.Id} {ask : List E.Id → σ → Except Error (List E.Entity) × σ} {s : σ}
    {es : List E.Entity} (h : (c.merge ids ask s).1 = .ok es) :
    ids = [] ∧ es = [] ∨ (∃ isPartial, arePartial (E := E) ids.eraseDups = .ok isPartial) ∧
      ∃ rows, E.sortById (c.absorbRows (c.held ids.eraseDups) rows).1.values = .ok es ∧
        (c.unknown ids.eraseDups = [] ∧ rows = [] ∨ (ask (c.unknown ids.eraseDups) s).1 = .ok rows ∧
          (c.merge ids ask s).2.2 = (ask (c.unknown ids.eraseDups) s).2) := by
  unfold merge at h ⊢
  split at h
  · rename_i hids
    cases h
    exact .inl ⟨List.isEmpty_iff.1 hids, rfl⟩
  rename_i hids
  rw [if_neg hids]
  dsimp only at h ⊢
  split at h
  · cases h
  rename_i isPartial hpartial
  split at h
  · cases h
  rename_i rows s' hrows
  refine .inr ⟨⟨isPartial, hpartial⟩, rows, h, ?_⟩
  split at hrows
  · rename_i hempty
    cases hrows
    exact .inl ⟨List.isEmpty_iff.1 hempty, rfl⟩
  · exact .inr ⟨congrArg Prod.fst hrows, (congrArg Prod.snd hrows).symm⟩

/-- What a store has to answer for identifiers that a cache does not know: rows that the view agrees with, and one for
each complete identifier under which the view has an entity. -/
structure Answers (V : E.Id → Option E.Entity → Prop) (c : Cache E) (isPartial : Bool) (wanted : List E.Id)
    (rows : List E.Entity) : Prop where
  agrees : ∀ row ∈ rows, Agrees V c row
  missing : isPartial = false → ∀ id ∈ wanted, (∀ row ∈ rows, E.idOf row ≠ id) → V id none

/-- **A merge gives out what the view has**, if what it is told by the store agrees with the view. -/
theorem Holds.merge {σ : Type} (h : c.Holds V) (hload : KeepsIds E) (ids : List E.Id)
    (ask : List E.Id → σ → Except Error (List E.Entity) × σ) (s : σ)
    (hask : ∀ isPartial, arePartial (E := E) ids.eraseDups = .ok isPartial →
      ∀ rows, (ask (c.unknown ids.eraseDups) s).1 = .ok rows →
        (c.merge ids ask s).2.2 = (ask (c.unknown ids.eraseDups) s).2 →
          Answers V c isPartial (c.unknown ids.eraseDups) rows) :
    (c.merge ids ask s).2.1.Holds V ∧ Extends c (c.merge ids ask s).2.1 ∧
      ∀ es, (c.merge ids ask s).1 = .ok es → ∀ e ∈ es, V (E.idOf e) (some e) := by
  unfold Cache.merge at hask ⊢
  split
  · refine ⟨h, .refl c, fun es hes => ?_⟩
    cases hes
    nofun
  rename_i hids
  rw [if_neg hids] at hask
  dsimp only at hask ⊢
  split
  · exact ⟨h, .refl c, nofun⟩
  rename_i isPartial hpartial
  specialize hask isPartial hpartial
  rw [hpartial] at hask
  dsimp only at hask
  -- with nothing unknown the store is not asked, and nothing has to be noted as missing
  have hanswers : ∀ rows s', (if (c.unknown ids.eraseDups).isEmpty then (.ok [], s)
      else ask (c.unknown ids.eraseDups) s) = (.ok rows, s') → Answers V c isPartial (c.unknown ids.eraseDups) rows := by
    intro rows s' hrows
    rw [hrows] at hask
    split at hrows
    · rename_i hempty
      cases hrows
      rw [List.isEmpty_iff.1 hempty]
      exact ⟨nofun, fun _ => nofun⟩
    · exact hask rows (congrArg Prod.fst hrows) (congrArg Prod.snd hrows).symm
  split
  · exact ⟨h, .refl c, nofun⟩
  rename_i rows s' hrows
  obtain ⟨hagrees, hmissing⟩ := hanswers rows s' hrows
  obtain ⟨hholds, hlearnt, hfound⟩ := Holds.absorbRows hload rows h hagrees (h.held ids.eraseDups)
  have hsorted : ∀ es, E.sortById ((c.absorbRows (c.held ids.eraseDups) rows).1).values = .ok es →
      ∀ e ∈ es, V (E.idOf e) (some e) := fun es hes e he => hfound e ((E.mem_sortById_iff hes e).1 he)
  cases isPartial with
  | true => exact ⟨hholds, hlearnt, hsorted⟩
  | false =>
    obtain ⟨hnoted, hmore⟩ := hholds.noteMissing _ (hmissing rfl)
    exact ⟨hnoted, hlearnt.trans hmore, hsorted⟩

end Cache

end EntityStore

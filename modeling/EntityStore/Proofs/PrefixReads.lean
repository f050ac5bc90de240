import EntityStore.Proofs.Contiguity
import EntityStore.Proofs.Prefixes
import EntityStore.Proofs.ScanLimits
/-!
# Three reads of a partial identifier

The entities under a partial identifier can be looked up, read as an interval, or picked from all entities.  The lookup
matches keys with the identifier, collects under identifiers and sorts; the two scans take the rows as the storage has
them, and the interval compares field by field.  `Repository.prefix_reads_agree` says that no difference shows: each of
them comes to the list of what the cache makes of the rows (`Session.shown`), in canonical order.

Two facts carry this.  The rows that a transaction sees have distinct identifiers, so that what one row leaves in the
cache is nothing to the others (`Cache.absorbAll_eq`, `Cache.values_absorbRows`).  And load hooks keep identifiers, so
that what comes out stands in the order of the rows (`Session.lists_shown`), which sorting then leaves alone.
-/
namespace EntityStore

open Std

variable {X : Scalars}

/-! ## The interval of a partial identifier -/

/-- Of ends that are alike, the bounds are satisfied by the rows that agree with the ends. -/
theorem Bound.admits_iff_agrees : ∀ {pattern c : Cells X} {bounds : List (Bound X)}, ofRows pattern pattern = .ok bounds →
    none ∉ c → (bounds.zip c).all (fun p => p.2.all p.1.admits) = Cells.agrees pattern c
  | [], _, _, h, _ => by
    cases h
    rfl
  | _ :: _, [], _, _, _ => by simp [Cells.agrees]
  | a :: pattern, cell :: c, bounds, h, hnone => by
    obtain ⟨bound, rest, hbound, hrest, rfl⟩ := ofRows_cons_eq_ok_iff.1 h
    obtain ⟨x, rfl⟩ : ∃ x, cell = some x := Option.ne_none_iff_exists'.1 fun hc => hnone (hc ▸ List.mem_cons_self)
    have ih := admits_iff_agrees hrest fun hc => hnone (List.mem_cons_of_mem _ hc)
    unfold Cells.agrees at ih ⊢
    rw [List.zip_cons_cons, List.zip_cons_cons, List.all_cons, List.all_cons, ih]
    obtain ⟨v, rfl, -, rfl⟩ | ⟨hne, -⟩ | ⟨rfl, -, rfl⟩ := ofEnds_cases hbound
    · simp [admits]
    · exact absurd rfl hne
    · simp [admits]

namespace EntityType

variable {E : EntityType X}

/-- Whether an identifier agrees with every filled cell of `pattern`. -/
def agrees (E : EntityType X) (pattern : Cells X) (id : E.Id) : Bool :=
  match E.flatten id with
  | .ok c => Cells.agrees pattern c
  | .error _ => false

theorem agrees_eq {pattern c : Cells X} {id : E.Id} (h : E.flatten id = .ok c) :
    E.agrees pattern id = Cells.agrees pattern c := by
  unfold agrees
  rw [h]

/-- **Of the rows that it can judge, the interval of an identifier contains those that agree with it.** -/
theorem containsCells_intervalUnder {p : E.Id} {pattern c : Cells X} {r : Interval X} (hp : E.flatten p = .ok pattern)
    (hr : E.intervalUnder p = .ok r) {b : Bool} (hb : r.containsCells c = .ok b) : b = Cells.agrees pattern c := by
  obtain ⟨schema, hschema, -⟩ := length_of_flatten hp
  obtain ⟨lower, upper, hlower, hupper, hends⟩ := (interval_eq_ok_iff hschema).1 hr
  cases hp.symm.trans hlower
  cases hp.symm.trans hupper
  obtain ⟨-, -, bounds, hbounds, -, rfl⟩ := Interval.ofBounds_eq_ok_iff.1 hends
  obtain ⟨hwidth, hnone⟩ := Interval.complete_of_containsCells hb
  rw [Interval.containsCells_of_complete hwidth hnone, Bound.admits_iff_agrees hbounds hnone] at hb
  exact (Except.ok.inj hb).symm

theorem Lists.pairwise {wanted : E.Entity → Prop} {es : List E.Entity} (h : E.Lists wanted es) :
    es.Pairwise fun a b => E.compareIds (E.idOf a) (E.idOf b) = .ok .lt := by
  obtain ⟨pairs, hpairs, hascending⟩ := h.ascending
  rw [← map_snd_of_keyed hpairs, List.pairwise_map]
  refine List.Pairwise.imp_of_mem (fun {p q} hp hq hpq => ?_) hascending
  rw [compareIds_of_flatten ((mem_keyed p.1 p.2 hpairs).1 hp).2 ((mem_keyed q.1 q.2 hpairs).1 hq).2]
  exact congrArg Except.ok ((Cells.compare_eq p.1 q.1).trans hpq)

theorem Lists.eq_of_sortById {wanted : E.Entity → Prop} {es sorted : List E.Entity} (h : E.Lists wanted es)
    (hsorted : E.sortById es = .ok sorted) : sorted = es := by
  obtain ⟨schema, -, hschema, -⟩ := sortById_eq_ok_iff.1 hsorted
  exact Except.ok.inj (hsorted.symm.trans ((sortById_eq_self_iff hschema).2 h.inTableOrder))

end EntityType

/-! ## Rows of distinct identifiers -/

theorem Dict.values_insert {α β : Type} [DecidableEq α] {d : Dict α β} {k : α} (h : d.get? k = none) (v : β) :
    (d.insert k v).values = d.values ++ [v] := by
  obtain ⟨entries⟩ := d
  show (put k v entries).map Prod.snd = entries.map Prod.snd ++ [v]
  induction entries with
  | nil => rfl
  | cons p rest ih =>
    obtain ⟨j, w⟩ := p
    have hj : j ≠ k := by
      rintro rfl
      simp [get?, find] at h
    have hrest : Dict.get? ⟨rest⟩ k = none := by
      simpa [get?, find, hj] using h
    simp [put, hj, ih hrest]

namespace Cache

variable {E : EntityType X}

theorem fst_absorb_of_ne (hload : KeepsIds E) (c : Cache E) {row row' : E.Entity} (h : E.idOf row ≠ E.idOf row') :
    ((c.absorb row).2.absorb row').1 = (c.absorb row').1 := by
  have hlookup := lookup_absorb_of_ne hload c h
  cases hslot : c.lookup (E.idOf row') with
  | none => rw [absorb_of_unknown (hlookup.trans hslot), absorb_of_unknown hslot]
  | some slot => rw [absorb_of_lookup (hlookup.trans hslot), absorb_of_lookup hslot]

theorem absorbAll_eq (hload : KeepsIds E) : ∀ (rows : List E.Entity) (c : Cache E),
    (rows.Pairwise fun a b => E.idOf a ≠ E.idOf b) → (c.absorbAll rows).1 = rows.filterMap fun row => (c.absorb row).1
  | [], _, _ => rfl
  | row :: rest, c, h => by
    obtain ⟨hrow, hrest⟩ := List.pairwise_cons.1 h
    have hothers : (rest.filterMap fun row' => ((c.absorb row).2.absorb row').1) =
        rest.filterMap fun row' => (c.absorb row').1 :=
      List.filterMap_congr fun row' hrow' => c.fst_absorb_of_ne hload (hrow row' hrow')
    rw [absorbAll, List.filterMap_cons]
    dsimp only
    rw [absorbAll_eq hload rest _ hrest, hothers]
    cases (c.absorb row).1 <;> rfl

/-- Rows of distinct identifiers that are collected under them come out in their order. -/
theorem values_absorbRows (hload : KeepsIds E) : ∀ (rows : List E.Entity) (c : Cache E) (found : Dict E.Id E.Entity),
    (rows.Pairwise fun a b => E.idOf a ≠ E.idOf b) → (∀ row ∈ rows, found.get? (E.idOf row) = none) →
      (c.absorbRows found rows).1.values = found.values ++ rows.filterMap fun row => (c.absorb row).1
  | [], _, found, _, _ => (List.append_nil _).symm
  | row :: rest, c, found, h, hnew => by
    obtain ⟨hrow, hrest⟩ := List.pairwise_cons.1 h
    have hothers : (rest.filterMap fun row' => ((c.absorb row).2.absorb row').1) =
        rest.filterMap fun row' => (c.absorb row').1 :=
      List.filterMap_congr fun row' hrow' => c.fst_absorb_of_ne hload (hrow row' hrow')
    rw [absorbRows_cons, values_absorbRows hload rest _ _ hrest fun row' hrow' => ?_, hothers, List.filterMap_cons]
    · cases (c.absorb row).1 with
      | none => rfl
      | some e =>
        rw [Option.elim_some, Dict.values_insert (hnew row List.mem_cons_self), List.append_assoc]
        rfl
    · rw [get?_elim_insert, if_neg (hrow row' hrow')]
      exact hnew row' (List.mem_cons_of_mem row hrow')

theorem Tidy.idOf_absorb {c : Cache E} (h : c.Tidy) (hload : KeepsIds E) {row e : E.Entity}
    (he : (c.absorb row).1 = some e) : E.idOf e = E.idOf row := by
  cases hslot : c.lookup (E.idOf row) with
  | none =>
    rw [absorb_of_unknown hslot] at he
    cases he
    exact hload row
  | some slot =>
    rw [absorb_of_lookup hslot] at he
    cases slot with
    | present e' =>
      cases he
      exact h _ _ hslot
    | tombstoned => cases he
    | absent => cases he

end Cache

/-! ## Caches are tidy -/

variable {κ : Type} [DecidableEq κ] {C : κ → EntityType X}

namespace Session

/-- The caches have every entity under its own identifier. -/
def IsTidy (s : Session C) : Prop := ∀ k, (s.tx.cache k).Tidy

theorem isTidy_iff {s : Session C} : s.IsTidy ↔ s.HidesOnly fun _ _ => True :=
  forall_congr' fun _ => Cache.tidy_iff_hidesOnly

theorem IsTidy.find {s : Session C} (h : s.IsTidy) (k : κ) (id : (C k).Id) : (s.find k id).2.IsTidy := by
  rw [isTidy_iff] at h ⊢
  obtain ⟨hcaches, hoptions, -⟩ | ⟨c, s', -, -, -, -, hcaches, hoptions, -, hfind⟩ := s.find_settles k id
  · exact h.of_caches hcaches hoptions
  · rw [hfind]
    exact h.setCache hcaches hoptions ((h k).settle fun _ => trivial)

theorem IsTidy.findMany {s : Session C} (h : s.IsTidy) (k : κ) (ids : List (C k).Id) : (s.findMany k ids).2.IsTidy := by
  rw [isTidy_iff] at h ⊢
  obtain ⟨hcaches, hoptions⟩ := s.caches_merge k ids
  rw [findMany_eq_merge]
  exact h.setCache hcaches hoptions ((h k).merge ids _ s fun _ _ _ _ _ _ _ => trivial)

end Session

/-- **Statements leave caches tidy**, be the transaction open or closed. -/
theorem TableOp.isTidy_runOpen (op : TableOp C) {s : Session C} (htidy : s.IsTidy) : (op.runOpen s).2.IsTidy := by
  have h := Session.isTidy_iff.1 htidy
  rw [Session.isTidy_iff]
  cases hop : op.isWrite with
  | true =>
    rcases op.overwrites_runOpen s hop with ⟨-, -, hsame⟩ | ⟨-, w, -, id, slot, -, -, hown, hcache, hothers⟩
    · exact h.of_cache hsame
    · intro k
      by_cases hk : k = w.kind
      · subst hk
        exact hcache ▸ (h w.kind).setSlot (fun _ => trivial) hown
      · exact hothers k hk ▸ h k
  | false =>
    cases op with
    | find k id => exact Session.isTidy_iff.1 (htidy.find k id)
    | findMany k ids => exact Session.isTidy_iff.1 (htidy.findMany k ids)
    | findUncached k ids => exact h.of_caches (s.caches_findUncached k ids) (Session.Reads.findUncached s k ids).options
    | findRange k r => exact h.scan (.interval r) _ r.containsCells
    | findAll k => exact h.scan .table _ (fun _ => .ok true)
    | postLoad k row => exact h.setCache rfl rfl ((h k).absorb row)
    | cache k op => exact h.setCache rfl rfl ((h k).run fun _ _ => trivial)
    | insert k e => cases hop
    | save k e => cases hop
    | delete k id => cases hop

theorem Action.isTidy_turn (a : Action C) {s : Session C} (h : s.IsTidy) : (a.turn s).IsTidy := by
  have hsame : (∀ k, (a.turn s).tx.cache k = s.tx.cache k) → (a.turn s).IsTidy := fun he k => he k ▸ h k
  cases a with
  | openTable id j => exact hsame (s.cache_openTable j)
  | statement id op =>
    exact op.isTidy_runOpen (s := s.openTable op.kind) fun k => s.cache_openTable op.kind k ▸ h k
  | commit id => exact hsame (Session.cache_of_caches s.caches_commit s.advances_commit.options)
  | rollback id => exact hsame (Session.cache_of_caches s.caches_rollback s.advances_rollback.options)
  | release id => exact hsame fun k => congrArg (fun t => t.cache k) s.tx_release
  | _ => exact hsame fun _ => rfl

theorem Repository.isTidy_session (as : List (Action C)) {id : TxId} : ∀ {s : Session C},
    (({} : Repository C).after as).session? id = some s → s.IsTidy := by
  induction as using List.reverseRecOn with
  | nil =>
    intro s hs
    cases hs
  | append_singleton as a ih =>
    intro s' hs'
    rw [after_concat] at hs'
    rcases next_cases (sound_after sound_empty as) a hs' with ⟨o, -, rfl⟩ | ⟨s, hs, ⟨-, htx⟩ | ⟨-, rfl⟩⟩
    · exact nofun
    · unfold Session.IsTidy
      rw [htx]
      exact ih hs
    · exact a.isTidy_turn (ih hs)

/-! ## What a transaction shows -/

namespace Session

variable {s s' : Session C} {k : κ}

/-- What the cache makes of the rows under the wanted keys, in the order of the storage. -/
def shown (s : Session C) (k : κ) (wanted : Cells X → Bool) : List (C k).Entity :=
  ((s.rows k).filter fun p => wanted p.1).filterMap fun p => ((s.tx.cache k).absorb p.2).1

theorem shown_congr (hrows : s'.rows k = s.rows k) (hcache : s'.tx.cache k = s.tx.cache k) (wanted : Cells X → Bool) :
    s'.shown k wanted = s.shown k wanted := by
  unfold shown
  rw [hrows, hcache]

theorem shown_congr_wanted {wanted wanted' : Cells X → Bool} (h : ∀ p ∈ s.rows k, wanted p.1 = wanted' p.1) :
    s.shown k wanted = s.shown k wanted' := by
  unfold shown
  rw [List.filter_congr h]

section

variable (hs : s.storage.Sound) (hkeyed : s.IsKeyed)

include hs in
theorem mem_rows_iff (c : Cells X) (row : (C k).Entity) : (c, row) ∈ s.rows k ↔ s.row k c = some row :=
  hs.mem_rows s.tx.id s.version k c row

include hs hkeyed in
theorem flatten_of_mem_rows {p : Cells X × (C k).Entity} (hp : p ∈ s.rows k) : (C k).flatten ((C k).idOf p.2) = .ok p.1 :=
  hkeyed k p.1 p.2 ((mem_rows_iff hs p.1 p.2).1 hp)

include hs hkeyed in
theorem pairwise_idOf_rows (wanted : Cells X × (C k).Entity → Bool) :
    (((s.rows k).filter wanted).map Prod.snd).Pairwise fun a b => (C k).idOf a ≠ (C k).idOf b := by
  rw [List.pairwise_map]
  refine List.Pairwise.imp_of_mem (fun {p q} hp hq hlt heq => ?_)
    (Ascending.filter (hs.ascending_rows s.tx.id s.version k) wanted)
  have hpq := flatten_of_mem_rows hs hkeyed (List.mem_filter.1 hp).1
  rw [heq, flatten_of_mem_rows hs hkeyed (List.mem_filter.1 hq).1] at hpq
  rw [Except.ok.inj hpq, Std.compare_self] at hlt
  cases hlt

variable (htidy : (s.tx.cache k).Tidy) (hload : Cache.KeepsIds (C k))

include hs hkeyed htidy hload

/-- **What is shown stands in canonical order.** -/
theorem lists_shown (wanted : Cells X → Bool) : (C k).Lists (· ∈ s.shown k wanted) (s.shown k wanted) := by
  let keyedRow (p : Cells X × (C k).Entity) : Option (Cells X × (C k).Entity) :=
    ((s.tx.cache k).absorb p.2).1.map fun e => (p.1, e)
  have hascending : Ascending (((s.rows k).filter fun p => wanted p.1).filterMap keyedRow) := by
    refine Ascending.filterMap (Ascending.filter (hs.ascending_rows s.tx.id s.version k) _) keyedRow ?_
    intro p q hq
    obtain ⟨e, -, rfl⟩ := Option.map_eq_some_iff.1 hq
    rfl
  have hshown : (((s.rows k).filter fun p => wanted p.1).filterMap keyedRow).map Prod.snd = s.shown k wanted := by
    rw [List.map_filterMap]
    refine List.filterMap_congr fun p _ => ?_
    show (((s.tx.cache k).absorb p.2).1.map fun e => (p.1, e)).map Prod.snd = _
    rw [Option.map_map]
    exact Option.map_id'
  refine ⟨fun _ => Iff.rfl, _, hshown ▸ EntityType.keyed_map_snd fun q hq => ?_, hascending⟩
  obtain ⟨p, hp, hpq⟩ := List.mem_filterMap.1 hq
  obtain ⟨e, he, rfl⟩ := Option.map_eq_some_iff.1 hpq
  show (C k).flatten ((C k).idOf e) = .ok p.1
  rw [htidy.idOf_absorb hload he]
  exact flatten_of_mem_rows hs hkeyed (List.mem_filter.1 hp).1

/-- Of all that is shown, what agrees with a pattern is what is shown of the rows that agree with it. -/
theorem filter_shown (pattern : Cells X) :
    (s.shown k fun _ => true).filter (fun e => (C k).agrees pattern ((C k).idOf e)) =
      s.shown k (Cells.agrees pattern) := by
  unfold shown
  rw [List.filter_true, List.filter_filterMap, List.filterMap_filter]
  refine List.filterMap_congr fun p hp => ?_
  cases he : ((s.tx.cache k).absorb p.2).1 with
  | none => simp
  | some e =>
    have hflat : (C k).flatten ((C k).idOf e) = .ok p.1 := by
      rw [htidy.idOf_absorb hload he]
      exact flatten_of_mem_rows hs hkeyed hp
    rw [Option.filter_some, EntityType.agrees_eq hflat]

end

/-! ## What the three reads show -/

omit [DecidableEq κ] in
theorem eq_of_pick {t : Transaction C} {keep : Cells X → Except Error Bool} {rows : List (Cells X × (C k).Entity)}
    {picked : List (C k).Entity} (h : pick t k keep rows = .ok picked) :
    picked = (rows.filter fun p => judged keep p.1).map Prod.snd := by
  unfold pick at h
  split at h
  · cases h
  · rename_i kept hkept
    split at h
    · cases h
    · cases h
      rw [keepRows_of_judges (judges_of_keepRows hkept)] at hkept
      exact (Except.ok.inj hkept).symm

theorem scan_shows (hs : s.storage.Sound) (hload : Cache.KeepsIds (C k)) {scan : Scan X} {action : String}
    {keep : Cells X → Except Error Bool} {es : List (C k).Entity}
    (h : let r := (s.lockScan k scan).read k action (rowsText k) ((s.lockScan k scan).collect k keep)
      (r.2.absorbRows k r.1).1 = .ok es) :
    s.tx.closedBy = none ∧ (∀ p ∈ s.rows k, ∃ b, keep p.1 = .ok b) ∧
      (s.IsKeyed → es = s.shown k (judged keep)) := by
  obtain ⟨hcaches, hoptions⟩ := s.caches_scan k scan action keep
  have hcache := cache_of_caches hcaches hoptions k
  have hok : ∀ rows s', (s.lockScan k scan).read k action (rowsText k) ((s.lockScan k scan).collect k keep) =
      (.ok rows, s') → _ := fun rows s' h => read_eq_ok h
  dsimp only at h
  generalize (s.lockScan k scan).read k action (rowsText k) ((s.lockScan k scan).collect k keep) = r at h hcache hok
  obtain ⟨answer, s'⟩ := r
  cases answer with
  | error e => cases h
  | ok rows =>
    obtain ⟨ho, hcollect, -⟩ := hok rows s' rfl
    rw [collect_eq_pick] at hcollect
    refine ⟨ho, judges_of_pick hcollect, fun hkeyed => ?_⟩
    have hrows : rows = ((s.rows k).filter fun p => judged keep p.1).map Prod.snd := eq_of_pick hcollect
    have hes : es = ((s.tx.cache k).absorbAll rows).1 := hcache ▸ (Except.ok.inj h).symm
    rw [hes, hrows, Cache.absorbAll_eq hload _ _ (pairwise_idOf_rows hs hkeyed _), List.filterMap_map]
    rfl

/-- A lookup of a partial identifier that the cache does not know shows the rows that agree with it. -/
theorem findMany_shows (hs : s.storage.Sound) (hload : Cache.KeepsIds (C k)) {p : (C k).Id}
    (hunknown : (s.tx.cache k).lookup p = none) {pattern : Cells X} (hp : (C k).flatten p = .ok pattern)
    (hpartial : Cells.isPartial pattern = true) {es : List (C k).Entity} (h : (s.findMany k [p]).1 = .ok es) :
    s.tx.closedBy = none ∧
      (s.IsKeyed → (s.tx.cache k).Tidy → es = s.shown k (Cells.agrees pattern)) := by
  obtain ⟨rows, hrows, hsorted⟩ := findMany_one_eq_ok h
  have hwanted : (s.tx.cache k).unknown [p] = [p] := by simp [Cache.unknown, Cache.contains, hunknown]
  have hheld : (s.tx.cache k).held [p] = {} := by simp [Cache.held, hunknown]
  rw [hwanted, asked_of_ne (List.cons_ne_nil p [])] at hrows
  refine ⟨(findUncached_eq_ok hs hrows).1, fun hkeyed htidy => ?_⟩
  obtain ⟨schema, hschema, -⟩ := EntityType.length_of_flatten hp
  have hkeys : (s.lockIds k [p].eraseDups).1 = .ok [pattern] := by
    simp [List.eraseDups_cons, lockIds, hp]
  have hpick := (findUncached_eq_pickKeys hschema hkeys).1 rows hrows
  have hagree : rows = ((s.rows k).filter fun q => Cells.agrees pattern q.1).map Prod.snd := by
    rw [pickKeys, if_pos hpartial] at hpick
    cases hpicked : pick s.tx k (fun key => .ok (Cells.agrees pattern key)) (s.rows k) with
    | error e =>
      rw [hpicked] at hpick
      cases hpick
    | ok picked =>
      rw [hpicked] at hpick
      cases hpick
      rw [List.append_nil]
      exact eq_of_pick hpicked
  subst hagree
  have hvalues : ((s.tx.cache k).absorbRows ((s.tx.cache k).held [p])
      (((s.rows k).filter fun q => Cells.agrees pattern q.1).map Prod.snd)).1.values =
        s.shown k (Cells.agrees pattern) := by
    rw [hheld, Cache.values_absorbRows hload _ _ _ (pairwise_idOf_rows hs hkeyed _) fun _ _ => rfl, List.filterMap_map]
    rfl
  rw [hvalues] at hsorted
  exact (lists_shown hs hkeyed htidy hload _).eq_of_sortById hsorted

end Session

namespace Repository

/-- **The three reads of a partial identifier agree.**  Let a transaction hold no slot under a partial identifier, and let
load hooks keep identifiers.  Then one list, strictly ascending in canonical order, is what a lookup of the identifier
returns, what the interval of the identifier returns, and what the identifier agrees with of all entities, each if it is
answered at all. -/
theorem prefix_reads_agree (as : List (Action C)) (id : TxId) (s : Session C)
    (hs : (({} : Repository C).after as).session? id = some s) (k : κ) (hload : Cache.KeepsIds (C k)) (p : (C k).Id)
    (pattern : Cells X) (hp : (C k).flatten p = .ok pattern) (hpartial : Cells.isPartial pattern = true)
    (hunknown : (s.tx.cache k).lookup p = none) (range : Interval X) (hrange : (C k).intervalUnder p = .ok range) :
    let r := ({} : Repository C).after as
    ∃ es, es.Pairwise (fun a b => (C k).compareIds ((C k).idOf a) ((C k).idOf b) = .ok .lt) ∧
      (∀ answer, (r.perform (.statement id (.findMany k [p]))).1 = .ok answer → answer = es) ∧
      (∀ answer, (r.perform (.statement id (.findRange k range))).1 = .ok answer → answer = es) ∧
      ∀ answer, (r.perform (.statement id (.findAll k))).1 = .ok answer →
        answer.filter (fun e => (C k).agrees pattern ((C k).idOf e)) = es := by
  intro r
  have hperform : ∀ op : TableOp C, (r.perform (.statement id op)).1 = (op.run s).1 :=
    fun op => congrArg Prod.fst (onSession_of_some hs op.run)
  have hopens := Session.Reads.openTable s k
  have hcache := s.cache_openTable k k
  have hsound : s.storage.Sound := ((sound_after (sound_empty (C := C)) as).session id s hs).2.2.2.storage
  have hsound' : (s.openTable k).storage.Sound := hopens.storage ▸ hsound
  have hshown : ∀ wanted, (s.openTable k).shown k wanted = s.shown k wanted :=
    Session.shown_congr (hopens.rows_eq k) hcache
  have hmany := fun answer (h : ((s.openTable k).findMany k [p]).1 = .ok answer) =>
    Session.findMany_shows hsound' hload (hcache ▸ hunknown) hp hpartial h
  have hscan := fun answer (h : ((s.openTable k).findRange k range).1 = .ok answer) =>
    Session.scan_shows hsound' hload h
  have hall := fun answer (h : ((s.openTable k).findAll k).1 = .ok answer) => Session.scan_shows hsound' hload h
  simp only [hperform]
  by_cases ho : s.tx.closedBy = none
  · have hkeyed := isKeyed_session as hs ho
    have hkeyed' : (s.openTable k).IsKeyed := fun j c row hrow =>
      hkeyed j c row ((hopens.row_eq j c).symm.trans hrow)
    have htidy := isTidy_session as hs k
    refine ⟨s.shown k (Cells.agrees pattern), (Session.lists_shown hsound hkeyed htidy hload _).pairwise, ?_, ?_, ?_⟩
    · intro answer h
      exact ((hmany answer h).2 hkeyed' (hcache ▸ htidy)).trans (hshown _)
    · intro answer h
      obtain ⟨-, hjudged, hes⟩ := hscan answer h
      refine (hes hkeyed').trans ((Session.shown_congr_wanted fun q hq => ?_).trans (hshown _))
      obtain ⟨b, hb⟩ := hjudged q hq
      rw [← EntityType.containsCells_intervalUnder hp hrange hb]
      simp only [Session.judged, hb]
    · intro answer h
      rw [(hall answer h).2.2 hkeyed']
      exact (congrArg _ (hshown _)).trans (Session.filter_shown hsound hkeyed htidy hload pattern)
  · -- a closed transaction answers none of them
    refine ⟨[], List.Pairwise.nil, ?_, ?_, ?_⟩
    · exact fun answer h => absurd (hopens.closedBy.symm.trans (hmany answer h).1) ho
    · exact fun answer h => absurd (hopens.closedBy.symm.trans (hscan answer h).1) ho
    · exact fun answer h => absurd (hopens.closedBy.symm.trans (hall answer h).1) ho

end Repository

namespace Sample

/-- Three items are published, two of them with the same first field; a transaction deletes one of the two. -/
def deletingBeside : List (Action (catalog "sample")) :=
  [.start {}, .statement 1 (.save .item firstItem), .statement 1 (.save .item secondItem),
    .statement 1 (.save .item (numbered 2 "other")), .commit 1, .start {}, .statement 2 (.delete .item secondItem.id)]

end Sample

open Sample in
theorem Repository.prefix_reads_agree_beside_deletion :
    let r := ({} : Repository (catalog "sample")).after deletingBeside
    ∃ range, (catalog "sample" .item).intervalUnder someItems = .ok range ∧
      (r.perform (.statement 2 (.findMany .item [someItems]))).1 = .ok [firstItem] ∧
      (r.perform (.statement 2 (.findRange .item range))).1 = .ok [firstItem] ∧
      (r.perform (.statement 2 (.findAll .item))).1 = .ok [firstItem, numbered 2 "other"] ∧
      [firstItem, numbered 2 "other"].filter
        (fun e => (catalog "sample" .item).agrees [some (.integer 1), none, none, none] e.id) = [firstItem] := by
  intro r
  obtain ⟨s, hs⟩ : ∃ s, r.session? 2 = some s := ⟨_, rfl⟩
  obtain ⟨range, hrange⟩ : ∃ range, (catalog "sample" .item).intervalUnder someItems = .ok range := ⟨_, rfl⟩
  have hunknown : (s.tx.cache .item).lookup someItems = none := by
    cases hs
    rfl
  have hmany : (r.perform (.statement 2 (.findMany .item [someItems]))).1 = .ok [firstItem] :=
    EntityType.mergeSort_of_ordered Except.ok rfl (List.pairwise_singleton ..)
  have hall : (r.perform (.statement 2 (.findAll .item))).1 = .ok [firstItem, numbered 2 "other"] := rfl
  have hinterval : (r.perform (.statement 2 (.findRange .item range))).1 = .ok [firstItem] := by
    cases hrange
    rfl
  obtain ⟨es, -, hes, -, hrest⟩ :=
    prefix_reads_agree deletingBeside 2 s hs .item (fun _ => rfl) someItems _ rfl rfl hunknown range hrange
  exact ⟨range, hrange, hmany, hinterval, hall, (hrest _ hall).trans (hes _ hmany).symm⟩

end EntityStore

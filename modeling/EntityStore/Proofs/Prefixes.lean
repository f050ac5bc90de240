import EntityStore.Proofs.MergeEffect
import EntityStore.Proofs.Transparency
import EntityStore.Samples.Catalog
/-!
# What a partial identifier brings

A partial identifier asks for every row that agrees with it.  Two slots decide what comes out: a row is kept back if the
cache has a slot without an entity under the row's own identifier (`Cache.Hides`), and nobody is asked at all if there
is a slot under the partial identifier, which is looked up like any other.

The first does no harm.  Such a slot says that the transaction has struck the identifier (`Repository.Strikes`), or that
it has fixed its snapshot and sees no row of that identifier (`Session.Gone`): every statement keeps this up
(`TableOp.hidesOnly_runOpen`), and so do the others (`Repository.hidesOnly`).  The second does: an identifier that was
written or struck while it was partial brings its own slot and no row (`Repository.prefix_query`).
-/
namespace EntityStore

variable {X : Scalars}

namespace Cache

variable {E : EntityType X} {σ : Type} {c : Cache E}

/-! ## What comes out of rows -/

theorem hides_absorb {row : E.Entity} {id : E.Id} (h : (c.absorb row).2.Hides id) : c.Hides id := by
  obtain ⟨slot, hslot, hnone⟩ := h
  unfold absorb at hslot
  split at hslot
  · exact ⟨slot, hslot, hnone⟩
  · have hput : (c.setSlot _ _).lookup id = some slot := hslot
    rw [lookup_setSlot] at hput
    split at hput
    · cases hput
      cases hnone
    · exact ⟨slot, hput, hnone⟩

/-- **Every row brings an entity**, unless the cache hides it. -/
theorem exists_found (id : E.Id) : ∀ (rows : List E.Entity) {c : Cache E} {found : Dict E.Id E.Entity},
    (∃ e, found.get? id = some e) ∨ (∃ row ∈ rows, E.idOf row = id) ∧ ¬c.Hides id →
      ∃ e, (c.absorbRows found rows).1.get? id = some e
  | [], _, _, .inl h => h
  | row :: rest, c, found, h => by
    rw [absorbRows_cons]
    refine exists_found id rest ?_
    rw [get?_elim_insert]
    by_cases hid : E.idOf row = id
    · subst hid
      rw [if_pos rfl]
      left
      rcases h with ⟨e, he⟩ | ⟨-, hshown⟩
      · cases (c.absorb row).1 with
        | none => exact ⟨e, he⟩
        | some e' => exact ⟨e', rfl⟩
      · cases hslot : c.lookup (E.idOf row) with
        | none =>
          rw [absorb_of_unknown hslot]
          exact ⟨E.onLoad row, rfl⟩
        | some slot =>
          rw [absorb_of_lookup hslot]
          cases hentity : slot.entity? with
          | none => exact absurd ⟨slot, hslot, hentity⟩ hshown
          | some e => exact ⟨e, rfl⟩
    · rw [if_neg hid]
      refine h.imp_right fun ⟨⟨row', hrow', hid'⟩, hshown⟩ => ⟨⟨row', ?_, hid'⟩, fun hhides => hshown (hides_absorb hhides)⟩
      rcases List.mem_cons.1 hrow' with rfl | hrow'
      · exact absurd hid' hid
      · exact hrow'

/-- Where load hooks keep identifiers, what is found is in the cache, or comes from a row of an unknown identifier. -/
theorem Tidy.found_cases (hc : c.Tidy) (hload : KeepsIds E) {rows : List E.Entity} {id : E.Id} {e : E.Entity}
    (h : (c.absorbRows {} rows).1.get? id = some e) :
    c.lookup id = some (.present e) ∧ E.idOf e = id ∨
      c.lookup id = none ∧ ∃ row ∈ rows, E.idOf row = id ∧ E.onLoad row = e := by
  rw [get?_absorbRows hload, Dict.get?_empty, Option.or_none] at h
  cases hslot : c.lookup id with
  | some slot =>
    unfold brought fate at h
    rw [hslot] at h
    split at h
    · cases slot with
      | present e' =>
        cases h
        exact .inl ⟨rfl, hc id e hslot⟩
      | tombstoned => cases h
      | absent => cases h
    · cases h
  | none =>
    rw [brought_of_unknown hslot] at h
    obtain ⟨row, hrow, rfl⟩ := Option.map_eq_some_iff.1 h
    obtain ⟨hmem, hid⟩ := mem_of_rowFor hrow
    exact .inr ⟨rfl, row, hmem, hid, rfl⟩

theorem pairwise_absorbRows : ∀ (rows : List E.Entity) {c : Cache E} {found : Dict E.Id E.Entity},
    (found.entries.Pairwise fun p q => p.1 ≠ q.1) →
      (c.absorbRows found rows).1.entries.Pairwise fun p q => p.1 ≠ q.1
  | [], _, _, h => h
  | row :: rest, c, found, h => by
    rw [absorbRows_cons]
    refine pairwise_absorbRows rest ?_
    cases (c.absorb row).1 with
    | none => exact h
    | some e => exact Dict.pairwise_insert h _ e

end Cache

variable {κ : Type} [DecidableEq κ] {C : κ → EntityType X}

namespace Session

variable {s s' : Session C} {k : κ}

/-! ## What the caches of a transaction hide -/

/-- The caches hide only what is gone. -/
def HidesOnly (gone : ∀ k, (C k).Id → Prop) (s : Session C) : Prop := ∀ k, (s.tx.cache k).HidesOnly (gone k)

/-- All rows that a transaction sees lie under the flat forms of their own identifiers. -/
def IsKeyed (s : Session C) : Prop := ∀ k c row, s.row k c = some row → (C k).flatten ((C k).idOf row) = .ok c

/-- The transaction sees no row of the identifier. -/
def Misses (s : Session C) (k : κ) (id : (C k).Id) : Prop := ∀ c row, s.row k c = some row → (C k).idOf row ≠ id

/-- The identifier is struck, or the transaction sees no row of it and that is settled. -/
def Gone (s : Session C) (struck : ∀ k, (C k).Id → Prop) (k : κ) (id : (C k).Id) : Prop :=
  struck k id ∨ s.tx.snapshot ≠ none ∧ s.Misses k id

namespace HidesOnly

variable {gone gone' : ∀ k, (C k).Id → Prop}

theorem mono (h : s.HidesOnly gone) (hgone : ∀ k id, gone k id → gone' k id) : s.HidesOnly gone' :=
  fun k => (h k).mono (hgone k)

theorem of_cache (h : s.HidesOnly gone) (hcache : ∀ k, s'.tx.cache k = s.tx.cache k) : s'.HidesOnly gone :=
  fun k => hcache k ▸ h k

theorem of_caches (h : s.HidesOnly gone) (hs : s'.tx.caches = s.tx.caches) (ho : s'.tx.options = s.tx.options) :
    s'.HidesOnly gone :=
  h.of_cache (cache_of_caches hs ho)

theorem setCache (h : s.HidesOnly gone) (hs : s'.tx.caches = s.tx.caches) (ho : s'.tx.options = s.tx.options)
    {c : Cache (C k)} (hc : c.HidesOnly (gone k)) : (s'.setCache k c).HidesOnly gone := by
  intro j
  have hcache : (s'.setCache k c).tx.cache j = _ := s'.tx.cache_setCache k j c
  rw [hcache]
  split
  · rename_i hj
    subst hj
    exact hc
  · exact h.of_caches hs ho j

theorem find (h : s.HidesOnly gone) (hkeyed : s.IsKeyed) {id : (C k).Id}
    (hmisses : (s.find k id).2.tx.snapshot = some s.version → ∀ j, s.Misses k j → gone k j) :
    (s.find k id).2.HidesOnly gone := by
  obtain ⟨hcaches, hoptions, -⟩ | ⟨c, s', hc, -, -, -, hcaches, hoptions, hsnapshot, hfind⟩ := s.find_settles k id
  · exact h.of_caches hcaches hoptions
  · rw [hfind] at hmisses ⊢
    refine h.setCache hcaches hoptions ((h k).settle fun hnone => hmisses hsnapshot id fun c' row hrow hid => ?_)
    have hflat := hkeyed k c' row hrow
    rw [hid, hc] at hflat
    cases hflat
    rw [hrow] at hnone
    cases hnone

theorem findMany (h : s.HidesOnly gone) (hs : s.storage.Sound) (hkeyed : s.IsKeyed) {ids : List (C k).Id}
    (hmisses : (s.findMany k ids).2.tx.snapshot = some s.version → ∀ j, s.Misses k j → gone k j) :
    (s.findMany k ids).2.HidesOnly gone := by
  obtain ⟨hcaches, hoptions⟩ := s.caches_merge k ids
  rw [findMany_eq_merge] at hmisses ⊢
  suffices hhides : ((s.tx.cache k).merge ids (fun wanted s => s.findUncached k wanted) s).2.1.HidesOnly (gone k) from
    h.setCache hcaches hoptions hhides
  refine (h k).merge ids (fun wanted s => s.findUncached k wanted) s ?_
  intro hcomplete rows hrows hst id hid hnorow
  obtain ⟨-, hsnapshot, hmem⟩ := findUncached_eq_ok hs hrows
  refine hmisses ((congrArg (fun s' : Session C => s'.tx.snapshot) hst).trans hsnapshot) id fun c row hrow hown => ?_
  have hflat := hkeyed k c row hrow
  rw [hown] at hflat
  obtain ⟨p, hp, hpartial⟩ := Cache.flatten_of_arePartial hcomplete id (List.mem_filter.1 hid).1
  rw [hflat] at hp
  cases hp
  refine hnorow row ((hmem row).2 ⟨id, hid, c, hflat, c, ?_, hrow⟩) hown
  rw [if_neg (by rw [hpartial]; exact Bool.false_ne_true)]

theorem scan (h : s.HidesOnly gone) (scan : Scan X) (action : String) (keep : Cells X → Except Error Bool) :
    let r := (s.lockScan k scan).read k action (rowsText k) ((s.lockScan k scan).collect k keep)
    (r.2.absorbRows k r.1).2.HidesOnly gone := by
  intro r
  obtain ⟨hcaches, hoptions⟩ := s.caches_scan k scan action keep
  cases r.1 with
  | error e => exact h.of_caches hcaches hoptions
  | ok rows =>
    unfold absorbRows
    rw [cache_of_caches hcaches hoptions k]
    exact h.setCache hcaches hoptions ((h k).absorbAll rows)

end HidesOnly

theorem cache_delete {id : (C k).Id} (h : (s.delete k id).1 = .ok ()) :
    (s.delete k id).2.tx.cache k = (s.tx.cache k).putTombstone id := by
  unfold delete at h ⊢
  cases hc : (C k).flatten id with
  | error e =>
    rw [hc] at h
    cases h
  | ok c =>
    rw [hc] at h
    dsimp only at h ⊢
    have hcaches := s.caches_write s!"delete({(C k).idText id})" k ⟨c, .delete⟩
    have hoptions := s.options_write s!"delete({(C k).idText id})" k ⟨c, .delete⟩
    generalize s.write s!"delete({(C k).idText id})" k ⟨c, .delete⟩ = written at h hcaches hoptions
    obtain ⟨answer, s'⟩ := written
    cases answer with
    | error e => cases h
    | ok u =>
      refine (s'.tx.cache_setCache k k _).trans ?_
      rw [dif_pos rfl, cache_of_caches hcaches hoptions k]

end Session

/-! ## Statements -/

namespace TableOp

variable {s : Session C}

/-- A statement by which a transaction has an identifier of a table for gone: it deletes it, or tells the cache so. -/
inductive Denies (s : Session C) (k : κ) (id : (C k).Id) : TableOp C → Prop
  | delete : Denies s k id (.delete k id)
  | cache {op : CacheOp (C k)} (h : op.Denies (s.tx.cache k) id) : Denies s k id (.cache k op)

/-- **A row that shows after a statement showed before**, or is what the statement has written. -/
theorem row_runOpen (op : TableOp C) (hs : s.storage.Sound) {k : κ} {c : Cells X} {row : (C k).Entity}
    (h : (op.runOpen s).2.row k c = some row) :
    s.row k c = some row ∨ (∃ a, (op.runOpen s).1 = .ok a) ∧ ∃ w, op.write? = some w ∧ w.row? k c = some (some row) := by
  cases op.effect_runOpen s with
  | reads hr _ => exact .inl ((hr.row_eq k c).symm.trans h)
  | queues w _ _ _ _ hq _ =>
    refine .inl (Eq.trans ?_ h)
    unfold Session.row Session.version
    rw [hq.storage, hq.id, hq.snapshot]
  | applies w hw _ _ _ ha hdone =>
    unfold Session.row at h ⊢
    rw [ha.storage, ha.id, Session.version_of_snapshot ha.snapshot] at h
    cases hwritten : (s.storage.write s.tx.id s.version w.kind w.write).1 with
    | error e =>
      rw [Storage.read_write_of_refused hs (by rw [hwritten]; exact nofun)] at h
      exact .inl h
    | ok u =>
      rw [Storage.read_write hs hwritten] at h
      rw [hwritten] at hdone
      cases hrow : w.row? k c with
      | none =>
        rw [hrow] at h
        exact .inl h
      | some row' =>
        rw [hrow] at h
        refine .inr ⟨?_, w, hw, hrow.trans (congrArg some h)⟩
        cases hanswer : (op.runOpen s).1 with
        | ok a => exact ⟨a, rfl⟩
        | error e =>
          rw [hanswer] at hdone
          cases hdone

theorem gone_runOpen (op : TableOp C) (hs : s.storage.Sound) {struck struck' : ∀ k, (C k).Id → Prop}
    (hstruck : ∀ k id, struck k id → struck' k id) {k : κ} {id : (C k).Id} (h : s.Gone struck k id)
    (hwritten : ∀ a w c row, (op.runOpen s).1 = .ok a → op.write? = some w → w.row? k c = some (some row) →
      (C k).idOf row ≠ id) : (op.runOpen s).2.Gone struck' k id := by
  refine h.imp (hstruck k id) fun ⟨hsnapshot, hmisses⟩ => ⟨?_, fun c row hrow => ?_⟩
  · obtain ⟨v, hv⟩ := Option.ne_none_iff_exists'.1 hsnapshot
    rw [(op.effect_runOpen s).advances.snapshot v hv]
    exact Option.some_ne_none v
  · rcases op.row_runOpen hs hrow with hbefore | ⟨⟨a, ha⟩, w, hw, hrow⟩
    · exact hmisses c row hbefore
    · exact hwritten a w c row ha hw hrow

theorem hidesOnly_of_read {op : TableOp C} (hop : op.isWrite = false) (hs : s.storage.Sound) (hkeyed : s.IsKeyed)
    {gone : ∀ k, (C k).Id → Prop} (h : s.HidesOnly gone)
    (hmisses : (op.runOpen s).2.tx.snapshot = some s.version → ∀ k id, s.Misses k id → gone k id)
    (hdenied : ∀ k id, op.Denies s k id → (∃ a, (op.runOpen s).1 = .ok a) → gone k id) :
    (op.runOpen s).2.HidesOnly gone := by
  cases op with
  | find k id => exact h.find hkeyed fun hsnapshot => hmisses hsnapshot k
  | findMany k ids => exact h.findMany hs hkeyed fun hsnapshot => hmisses hsnapshot k
  | findUncached k ids => exact h.of_caches (s.caches_findUncached k ids) (Session.Reads.findUncached s k ids).options
  | findRange k r => exact h.scan (.interval r) _ r.containsCells
  | findAll k => exact h.scan .table _ (fun _ => .ok true)
  | postLoad k row => exact h.setCache rfl rfl ((h k).absorb row)
  | cache k op =>
    exact h.setCache rfl rfl ((h k).run fun id hid => hdenied k id (.cache hid) hid.exists_answer)
  | insert k e => cases hop
  | save k e => cases hop
  | delete k id => cases hop

section

variable {struck struck' : ∀ k, (C k).Id → Prop} (hstruck : ∀ k id, struck k id → struck' k id)

include hstruck in
theorem hidesOnly_of_write {op : TableOp C} (hop : op.isWrite = true) (hs : s.storage.Sound)
    (hon : ∀ k, (s.tx.cache k).enabled = true) (h : s.HidesOnly (s.Gone struck))
    (hdenied : ∀ k id, op.Denies s k id → (∃ a, (op.runOpen s).1 = .ok a) → struck' k id) :
    (op.runOpen s).2.HidesOnly ((op.runOpen s).2.Gone struck') := by
  rcases op.overwrites_runOpen s hop with ⟨e, herror, hsame⟩ | ⟨hok, w, hw, hover⟩
  · refine (h.of_cache hsame).mono fun k id hgone => op.gone_runOpen hs hstruck hgone fun a w c row ha => ?_
    rw [herror] at ha
    cases ha
  obtain ⟨id, slot, -, hslot, hown, hcache, hothers⟩ := hover
  have hkept : ∀ k j, s.Gone struck k j → (∀ c row, w.row? k c = some (some row) → (C k).idOf row ≠ j) →
      (op.runOpen s).2.Gone struck' k j := by
    intro k j hgone hne
    refine op.gone_runOpen hs hstruck hgone fun a w' c row _ hw' hrow => ?_
    rw [hw] at hw'
    cases hw'
    exact hne c row hrow
  -- a row that is written is the entity of the slot, and so has its identifier
  have hwritten : ∀ c row, w.row? w.kind c = some (some row) → slot.entity? = some row := by
    intro c row hrow
    obtain ⟨-, rfl⟩ := TableWrite.eq_of_row? hrow
    rw [TableWrite.row?_self w.kind w.write, if_pos rfl] at hrow
    exact hslot.trans (Option.some.inj hrow)
  intro k
  by_cases hk : k = w.kind
  · subst hk
    cases hentity : slot.entity? with
    | none =>
      obtain ⟨e, -, -, hrow⟩ | ⟨id', rfl, -, -⟩ := write?_cases hw
      · rw [← hslot, hentity] at hrow
        cases hrow
      obtain ⟨a, ha⟩ := hok
      have hdeleted : ((TableOp.delete w.kind id').runOpen s).2.tx.cache w.kind = _ := Session.cache_delete ha
      rw [hdeleted]
      refine (h w.kind).overwrite (hon w.kind) (fun _ => .inl (hdenied _ _ .delete ⟨a, ha⟩)) nofun fun j _ hgone => ?_
      exact hkept _ j hgone fun c row hrow => by cases hentity.symm.trans (hwritten c row hrow)
    | some e =>
      rw [hcache]
      refine (h w.kind).overwrite (hon w.kind) (fun hnone => ?_) hown fun j hj hgone => ?_
      · cases hentity.symm.trans hnone
      · exact hkept _ j hgone fun c row hrow hid => hj (hid.symm.trans (hown row (hwritten c row hrow)))
  · rw [hothers k hk]
    exact (h k).mono fun j hgone => hkept k j hgone fun c row hrow => absurd (TableWrite.eq_of_row? hrow).1.symm hk

include hstruck in
/-- **After a statement the caches still hide only what is gone.** -/
theorem hidesOnly_runOpen (op : TableOp C) (hs : s.storage.Sound) (hkeyed : s.IsKeyed)
    (hon : ∀ k, (s.tx.cache k).enabled = true) (h : s.HidesOnly (s.Gone struck))
    (hdenied : ∀ k id, op.Denies s k id → (∃ a, (op.runOpen s).1 = .ok a) → struck' k id) :
    (op.runOpen s).2.HidesOnly ((op.runOpen s).2.Gone struck') := by
  cases hop : op.isWrite with
  | true => exact hidesOnly_of_write hstruck hop hs hon h hdenied
  | false =>
    have hnone : op.write? = none := by cases op <;> first | rfl | cases hop
    have hrow := (op.reads_runOpen hop s).row_eq
    refine hidesOnly_of_read hop hs hkeyed (h.mono fun k id hgone => ?_) (fun hsnapshot k id hmisses => ?_)
      fun k id hid hok => .inl (hdenied k id hid hok)
    · refine op.gone_runOpen hs hstruck hgone fun a w c row _ hw => ?_
      rw [hnone] at hw
      cases hw
    · refine .inr ⟨?_, fun c row hc => hmisses c row ((hrow k c).symm.trans hc)⟩
      rw [hsnapshot]
      exact Option.some_ne_none _

end

end TableOp

/-! ## In a repository -/

theorem Action.learns_turn (a : Action C) (s : Session C) (k : κ) :
    (s.tx.cache k).Learns ((a.turn s).tx.cache k) := by
  have hsame : (a.turn s).tx.cache k = s.tx.cache k → (s.tx.cache k).Learns ((a.turn s).tx.cache k) :=
    fun he => he ▸ .refl
  cases a with
  | openTable id j => exact hsame (s.cache_openTable j k)
  | statement id op => exact s.cache_openTable op.kind k ▸ op.learns_runOpen (s.openTable op.kind) k
  | commit id => exact hsame (Session.cache_of_caches s.caches_commit s.advances_commit.options k)
  | rollback id => exact hsame (Session.cache_of_caches s.caches_rollback s.advances_rollback.options k)
  | release id => exact hsame (congrArg (fun t => t.cache k) s.tx_release)
  | _ => exact hsame rfl

namespace Session

variable {s : Session C} {k : κ}

theorem findMany_one_eq_ok {p : (C k).Id} {es : List (C k).Entity} (h : (s.findMany k [p]).1 = .ok es) :
    ∃ rows, s.asked k ((s.tx.cache k).unknown [p]) = .ok rows ∧
      (C k).sortById ((s.tx.cache k).absorbRows ((s.tx.cache k).held [p]) rows).1.values = .ok es := by
  have hone : [p].eraseDups = [p] := by simp [List.eraseDups_cons]
  rw [s.fst_findMany_eq (List.cons_ne_nil p []), hone] at h
  split at h
  · cases h
  · cases hrows : s.asked k ((s.tx.cache k).unknown [p]) with
    | error e =>
      rw [hrows] at h
      cases h
    | ok rows =>
      rw [hrows] at h
      unfold Cache.mergeAnswer at h
      rw [hone] at h
      exact ⟨rows, rfl, h⟩

theorem findMany_of_known {p : (C k).Id} {slot : Slot (C k).Entity} (hslot : (s.tx.cache k).lookup p = some slot)
    {es : List (C k).Entity} (h : (s.findMany k [p]).1 = .ok es) : es = slot.entity?.toList := by
  obtain ⟨rows, hrows, hsorted⟩ := findMany_one_eq_ok h
  have hperm := EntityType.sortById_perm hsorted
  have hunknown : (s.tx.cache k).unknown [p] = [] := by simp [Cache.unknown, Cache.contains, hslot]
  rw [hunknown] at hrows
  cases hrows
  have hheld : ((s.tx.cache k).held [p]).values = slot.entity?.toList := by
    simp only [Cache.held, List.foldl_cons, List.foldl_nil, hslot, Option.bind_some]
    cases slot.entity? <;> rfl
  rw [Cache.absorbRows, hheld] at hperm
  cases hentity : slot.entity? with
  | none =>
    rw [hentity] at hperm
    exact hperm.eq_nil
  | some e =>
    rw [hentity] at hperm
    exact hperm.eq_singleton

theorem findMany_of_unknown (hs : s.storage.Sound) {p : (C k).Id} (hnone : (s.tx.cache k).lookup p = none)
    {pattern : Cells X} (hp : (C k).flatten p = .ok pattern) (hpartial : Cells.isPartial pattern = true)
    {es : List (C k).Entity} (h : (s.findMany k [p]).1 = .ok es) :
    s.tx.closedBy = none ∧ ∃ rows, es.Perm ((s.tx.cache k).absorbRows {} rows).1.values ∧
      ∀ row, row ∈ rows ↔ ∃ c, Cells.agrees pattern c = true ∧ s.row k c = some row := by
  obtain ⟨rows, hrows, hsorted⟩ := findMany_one_eq_ok h
  have hunknown : (s.tx.cache k).unknown [p] = [p] := by simp [Cache.unknown, Cache.contains, hnone]
  have hheld : (s.tx.cache k).held [p] = {} := by simp [Cache.held, hnone]
  rw [hunknown, asked_of_ne (List.cons_ne_nil p [])] at hrows
  obtain ⟨ho, -, hmem⟩ := findUncached_eq_ok hs hrows
  refine ⟨ho, rows, hheld ▸ EntityType.sortById_perm hsorted, fun row => ?_⟩
  rw [hmem]
  simp [hp, hpartial]

end Session

namespace Repository

/-- **What a cache of a transaction knows it has learnt**, from nothing and only if it is on. -/
theorem learns_session (as : List (Action C)) {id : TxId} : ∀ {s : Session C},
    (({} : Repository C).after as).session? id = some s → ∀ k,
      Cache.Learns { enabled := s.tx.options.cache } (s.tx.cache k) := by
  induction as using List.reverseRecOn with
  | nil =>
    intro s hs
    cases hs
  | append_singleton as a ih =>
    intro s' hs' k
    rw [after_concat] at hs'
    rcases next_cases (sound_after sound_empty as) a hs' with ⟨o, -, rfl⟩ | ⟨s, hs, ⟨-, htx⟩ | ⟨-, rfl⟩⟩
    · exact .refl
    · rw [htx]
      exact ih hs k
    · rw [(a.advances_turn s).options]
      exact (ih hs k).trans (a.learns_turn s k)

theorem cache_of_off {as : List (Action C)} {id : TxId} {s : Session C}
    (hs : (({} : Repository C).after as).session? id = some s) (hoff : s.tx.options.cache = false) (k : κ) :
    s.tx.cache k = { enabled := false } := by
  have hlearns := learns_session as hs k
  rw [hoff] at hlearns
  exact hlearns.eq_of_disabled rfl

theorem isKeyed_session (as : List (Action C)) {id : TxId} {s : Session C}
    (hs : (({} : Repository C).after as).session? id = some s) (ho : s.tx.closedBy = none) : s.IsKeyed := by
  have htells := Chronicle.tells_along Chronicle.tells_empty (sound_empty (C := C)) as
  obtain ⟨-, -, hhome, hsound⟩ := (sound_after (sound_empty (C := C)) as).session id s hs
  have hledger : (({} : Chronicle C).along {} as).Records s := by
    unfold Chronicle.Records
    rw [storage_of_session? hs]
    exact htells.ledger _ hhome
  exact fun k c row => (htells.session id s hs ho).flatten_of_row hsound hledger (Chronicle.isKeyed_empty.along as {})

/-- The transaction strikes an identifier: a statement of it that has the identifier for gone gets through. -/
def Strikes (id : TxId) (k : κ) (i : (C k).Id) (r : Repository C) (a : Action C) : Prop :=
  ∃ op s, a = .statement id op ∧ r.session? id = some s ∧ op.Denies s k i ∧ ∃ answer, (op.run s).1 = .ok answer

/-- The identifiers that a transaction has struck so far. -/
def Struck (as : List (Action C)) (id : TxId) (k : κ) (i : (C k).Id) : Prop :=
  ({} : Repository C).Happens (Strikes id k i) as

theorem Struck.concat {as : List (Action C)} {id : TxId} {k : κ} {i : (C k).Id} (h : Struck as id k i) (a : Action C) :
    Struck (as ++ [a]) id k i := (happens_concat (Strikes id k i) a as {}).2 (.inl h)

/-- An identifier is not struck if no statement of the transaction has it for gone. -/
theorem not_struck_of_denies {as : List (Action C)} {id : TxId} {k : κ} {i : (C k).Id}
    (h : ∀ op, .statement id op ∈ as → ∀ s, ¬op.Denies s k i) : ¬Struck as id k i := by
  intro hstruck
  obtain ⟨_, ha, _, op, s, rfl, -, hdenies, -⟩ := exists_of_happens hstruck
  exact h op ha s hdenies

/-- What is gone for a transaction does not come back while it idles, or while others act. -/
theorem gone_of_seesSame {as : List (Action C)} {id : TxId} {s s' : Session C} (a : Action C)
    (hsnapshot : s'.tx.snapshot = s.tx.snapshot) (hrow : s.tx.snapshot ≠ none → ∀ k c, s'.row k c = s.row k c) (k : κ)
    (i : (C k).Id) (h : s.Gone (Struck as id) k i) : s'.Gone (Struck (as ++ [a]) id) k i := by
  refine h.imp (Struck.concat · a) fun ⟨hpinned, hmisses⟩ => ⟨hsnapshot ▸ hpinned, fun c row hc => ?_⟩
  exact hmisses c row ((hrow hpinned k c).symm.trans hc)

/-- **The caches of an open transaction hide only what it has struck, and what it sees no row of.** -/
theorem hidesOnly (as : List (Action C)) {id : TxId} {s : Session C}
    (hs : (({} : Repository C).after as).session? id = some s) (ho : s.tx.closedBy = none)
    (hcache : s.tx.options.cache = true) : s.HidesOnly (s.Gone (Struck as id)) := by
  refine open_induction (P := fun as s => s.tx.options.cache = true → s.HidesOnly (s.Gone (Struck as id)))
    (fun as o _ hcache k => ?_) (fun as a s s' hs hs' hne htx ih hcache => ?_) (fun as op s hs ho ih hcache => ?_)
    (fun as a s s' hs _ hidle ih hcache => ?_) as s hs ho hcache
  · exact nofun
  · refine ((ih (htx ▸ hcache)).of_cache fun k => by rw [htx]).mono ?_
    refine gone_of_seesSame a (by rw [htx]) fun hpinned k c => ?_
    obtain ⟨v, hv⟩ := Option.ne_none_iff_exists'.1 hpinned
    obtain ⟨s'', hs'', hsame⟩ := seesSame_next (sound_after sound_empty as) hs hv hne
    rw [after_concat, hs''] at hs'
    cases hs'
    exact hsame.row k c
  · have hadv := s.advances_statement op
    have hopens := Session.Notes.openTable s op.kind
    have hsound := ((sound_after (sound_empty (C := C)) as).session id s hs).2.2.2
    refine op.hidesOnly_runOpen (s := s.openTable op.kind) (fun k i (h : Struck as id k i) => h.concat _) ?_ ?_ ?_ ?_ ?_
    · exact hopens.reads.storage ▸ hsound.storage
    · intro k c row hrow
      exact isKeyed_session as hs ho k c row ((hopens.reads.row_eq k c).symm.trans hrow)
    · intro k
      rw [s.cache_openTable, (learns_session as hs k).extends.enabled]
      exact hadv.options ▸ hcache
    · refine ((ih (hadv.options ▸ hcache)).of_cache (s.cache_openTable op.kind)).mono fun k i h => h.imp_right ?_
      exact fun ⟨hpinned, hmisses⟩ => ⟨hopens.snapshot ▸ hpinned, fun c row hrow =>
        hmisses c row ((hopens.reads.row_eq k c).symm.trans hrow)⟩
    · intro k i hdenies hanswer
      refine (happens_concat (Strikes id k i) _ as {}).2 (.inr ⟨op, s, rfl, hs, ?_, hanswer⟩)
      cases hdenies with
      | delete => exact .delete
      | cache h =>
        rw [s.cache_openTable] at h
        exact .cache h
  · refine ((ih (hidle.notes.reads.options ▸ hcache)).of_cache hidle.cache).mono ?_
    exact gone_of_seesSame a hidle.notes.snapshot fun _ => hidle.notes.reads.row_eq

theorem shows_row (as : List (Action C)) {id : TxId} {s : Session C}
    (hs : (({} : Repository C).after as).session? id = some s) (ho : s.tx.closedBy = none) {k : κ} {c : Cells X}
    {row : (C k).Entity} (hrow : s.row k c = some row) (hstruck : ¬Struck as id k ((C k).idOf row)) :
    ¬(s.tx.cache k).Hides ((C k).idOf row) ∧ (s.tx.cache k).Tidy := by
  cases hcache : s.tx.options.cache with
  | false =>
    rw [cache_of_off hs hcache k]
    exact ⟨fun ⟨_, hslot, _⟩ => (by cases hslot), nofun⟩
  | true =>
    have hhides := hidesOnly as hs ho hcache k
    refine ⟨fun hid => ?_, hhides.tidy⟩
    rcases hhides.gone_of_hides hid with hgone | ⟨-, hmisses⟩
    · exact hstruck hgone
    · exact hmisses c row hrow rfl

/-- **What a partial identifier brings.**  Let a transaction ask for a partial identifier, and get an answer.  If its cache
has a slot under this very identifier, the answer is the entity of that slot, if any, and no row counts; with the cache
off there is no such slot.  If it has none, then for every row that agrees with the identifier there is an entity in the
answer, one for each of the rows' identifiers, unless the transaction has struck it.  Where load hooks keep identifiers,
it is the one in the cache under the row's identifier, or else what the load hook makes of the row. -/
theorem prefix_query (as : List (Action C)) (id : TxId) (s : Session C)
    (hs : (({} : Repository C).after as).session? id = some s) (k : κ) (p : (C k).Id) (pattern : Cells X)
    (hp : (C k).flatten p = .ok pattern) (hpartial : Cells.isPartial pattern = true) (es : List (C k).Entity)
    (hes : ((({} : Repository C).after as).perform (.statement id (.findMany k [p]))).1 = .ok es) :
    (s.tx.options.cache = false → (s.tx.cache k).lookup p = none) ∧
    match (s.tx.cache k).lookup p with
    | some slot => es = slot.entity?.toList
    | none => ∃ found : Dict (C k).Id (C k).Entity, found.keys.Nodup ∧ es.Perm found.values ∧
        ∀ c row, s.row k c = some row → Cells.agrees pattern c = true → ¬Struck as id k ((C k).idOf row) →
          ∃ e, found.get? ((C k).idOf row) = some e ∧ (Cache.KeepsIds (C k) → (C k).idOf e = (C k).idOf row ∧
            ((s.tx.cache k).lookup ((C k).idOf row) = some (.present e) ∨
              (s.tx.cache k).lookup ((C k).idOf row) = none ∧ e = (C k).onLoad row)) := by
  refine ⟨fun hoff => by rw [cache_of_off hs hoff k]; rfl, ?_⟩
  have hperform : (({} : Repository C).after as).perform (.statement id (.findMany k [p])) =
      (((s.openTable k).findMany k [p]).1,
        (({} : Repository C).after as).putSession ((s.openTable k).findMany k [p]).2) :=
    onSession_of_some hs (TableOp.findMany k [p]).run
  rw [hperform] at hes
  have hcache := s.cache_openTable k k
  have hopens := Session.Reads.openTable s k
  have hsound := ((sound_after (sound_empty (C := C)) as).session id s hs).2.2.2
  cases hslot : (s.tx.cache k).lookup p with
  | some slot => exact Session.findMany_of_known (hcache ▸ hslot) hes
  | none =>
    obtain ⟨ho, rows, hperm, hmem⟩ := Session.findMany_of_unknown (hopens.storage ▸ hsound.storage) (hcache ▸ hslot) hp
      hpartial hes
    rw [hcache] at hperm
    have hkeyed := isKeyed_session as hs (hopens.closedBy ▸ ho)
    refine ⟨_, ?_, hperm, fun c row hrow hagrees hstruck => ?_⟩
    · unfold Dict.keys
      rw [List.nodup_iff_pairwise_ne, List.pairwise_map]
      exact Cache.pairwise_absorbRows rows List.Pairwise.nil
    have hrows : row ∈ rows := (hmem row).2 ⟨c, hagrees, (hopens.row_eq k c).trans hrow⟩
    -- a slot hides the row only where the transaction has struck it
    obtain ⟨hshown, htidy⟩ := shows_row as hs (hopens.closedBy ▸ ho) hrow hstruck
    obtain ⟨e, he⟩ := Cache.exists_found ((C k).idOf row) rows (.inr ⟨⟨row, hrows, rfl⟩, hshown⟩)
    refine ⟨e, he, fun hload => ?_⟩
    rcases htidy.found_cases hload he with ⟨hheld, hid⟩ | ⟨hnone, row', hrow', hid, rfl⟩
    · exact ⟨hid, .inl hheld⟩
    · -- no two rows lie under one identifier
      obtain ⟨c', -, hseen⟩ := (hmem row').1 hrow'
      have hseen := (hopens.row_eq k c').symm.trans hseen
      have hflat := hkeyed k c' row' hseen
      rw [hid, hkeyed k c row hrow] at hflat
      cases hflat
      rw [hrow] at hseen
      cases hseen
      exact ⟨hload row, .inr ⟨hnone, rfl⟩⟩

end Repository

namespace Sample

/-- All items with the same first field. -/
def someItems : ItemId := ⟨some 1, none, none, none⟩

def firstItem : Item := ⟨⟨some 1, some 0, some "c", some .ok⟩, "first"⟩

def firstKey : Cells scalars := [some (.integer 1), some (.integer 0), some (.string "c"), some (.enum "OK")]

def secondItem : Item := ⟨⟨some 1, some 1, some "c", some .ok⟩, "second"⟩

/-- Two items are published; a transaction deletes the second of them. -/
def deletingOne : List (Action (catalog "sample")) :=
  [.start {}, .statement 1 (.save .item firstItem), .statement 1 (.save .item secondItem), .commit 1,
    .start {}, .statement 2 (.delete .item secondItem.id)]

/-- An item is published; a transaction deletes what all items with its first field share, under which there is none. -/
def deletingSome : List (Action (catalog "sample")) :=
  [.start {}, .statement 1 (.save .item firstItem), .commit 1, .start {}, .statement 2 (.delete .item someItems)]

theorem not_struck_deletingOne : ¬Repository.Struck deletingOne 2 .item firstItem.id := by
  refine Repository.not_struck_of_denies fun op hop s hdenies => ?_
  simp only [deletingOne, List.mem_cons, Action.statement.injEq, reduceCtorEq, List.not_mem_nil, or_false, false_or,
    true_and, Nat.reduceEqDiff, false_and] at hop
  subst hop
  cases hdenies

theorem not_struck_deletingSome : ¬Repository.Struck deletingSome 2 .item firstItem.id := by
  refine Repository.not_struck_of_denies fun op hop s hdenies => ?_
  simp only [deletingSome, List.mem_cons, Action.statement.injEq, reduceCtorEq, List.not_mem_nil, or_false, false_or,
    true_and, Nat.reduceEqDiff, false_and] at hop
  subst hop
  cases hdenies

end Sample

open Sample in
theorem Repository.prefix_query_beside_deletion :
    let r := ({} : Repository (catalog "sample")).after deletingOne
    ∃ s, r.session? 2 = some s ∧ (s.tx.cache .item).lookup someItems = none ∧
      (r.perform (.statement 2 (.findMany .item [someItems]))).1 = .ok [firstItem] ∧
      ∃ found : Dict ItemId Item, found.keys.Nodup ∧ [firstItem].Perm found.values ∧
        found.get? firstItem.id = some firstItem := by
  intro r
  obtain ⟨s, hs⟩ : ∃ s, r.session? 2 = some s := ⟨_, rfl⟩
  have hunknown : (s.tx.cache .item).lookup someItems = none := by
    cases hs
    rfl
  have hrow : s.row .item firstKey = some firstItem := by
    cases hs
    rfl
  have hes : (r.perform (.statement 2 (.findMany .item [someItems]))).1 = .ok [firstItem] :=
    EntityType.mergeSort_of_ordered Except.ok rfl (List.pairwise_singleton ..)
  have hbrings := (prefix_query deletingOne 2 s hs .item someItems _ rfl rfl [firstItem] hes).2
  rw [hunknown] at hbrings
  obtain ⟨found, hkeys, hperm, hrows⟩ := hbrings
  obtain ⟨e, he, hkept⟩ := hrows _ firstItem hrow rfl not_struck_deletingOne
  refine ⟨s, hs, hunknown, hes, found, hkeys, hperm, he.trans ?_⟩
  rcases hkept fun _ => rfl with ⟨-, hheld | ⟨-, rfl⟩⟩
  · cases hs
    cases hheld
  · rfl

open Sample in
/-- A deletion under the partial identifier itself hides the row that is still there. -/
theorem Repository.prefix_query_hides_row :
    let r := ({} : Repository (catalog "sample")).after deletingSome
    ∃ s pattern, r.session? 2 = some s ∧ s.row .item firstKey = some firstItem ∧
      (catalog "sample" .item).flatten someItems = .ok pattern ∧ Cells.isPartial pattern = true ∧
      Cells.agrees pattern firstKey = true ∧ ¬Struck deletingSome 2 .item firstItem.id ∧
      (r.perform (.statement 2 (.findMany .item [someItems]))).1 = .ok [] := by
  exact ⟨_, _, rfl, rfl, rfl, rfl, rfl, not_struck_deletingSome, EntityType.mergeSort_of_ordered Except.ok rfl .nil⟩

end EntityStore

import EntityStore.Proofs.Footprint
import EntityStore.Proofs.PointView
/-!
# What set reads give out

A set read takes the rows that the store shows it through the cache.  It answers with the view of their identifiers, and
with that of the identifiers it names and the cache knows (`Session.GivesOut`); it does not look for others in the cache.
So `Repository.mem_set_read_iff` says when an entity that a transaction has in view comes out: in the immediate write
mode whenever it is asked for, but with delayed writes only if the snapshot has a row there too.
-/
namespace EntityStore

variable {X : Scalars} {κ : Type} [DecidableEq κ] {C : κ → EntityType X}

/-! ## What comes out of a cache -/

namespace Cache

variable {E : EntityType X} {V : E.Id → Option E.Entity → Prop} {c : Cache E}

/-- A view has one answer for an identifier, or none. -/
def Decides (V : E.Id → Option E.Entity → Prop) : Prop := ∀ id e? e?', V id e? → V id e?' → e? = e?'

theorem Holds.absorb_view (h : c.Holds V) (hload : KeepsIds E) {row : E.Entity} (hrow : Agrees V c row) :
    V (E.idOf row) (c.absorb row).1 ∧ ∀ e ∈ (c.absorb row).1, E.idOf e = E.idOf row := by
  unfold Cache.absorb
  cases hslot : c.lookup (E.idOf row) with
  | some slot => exact h _ slot hslot
  | none =>
    refine ⟨hrow hslot, fun e he => ?_⟩
    cases he
    exact hload row

theorem Holds.absorb_eq_some_iff (hV : Decides V) (h : c.Holds V) (hload : KeepsIds E) {row : E.Entity}
    (hrow : Agrees V c row) (e : E.Entity) :
    (c.absorb row).1 = some e ↔ V (E.idOf e) (some e) ∧ E.idOf row = E.idOf e := by
  obtain ⟨hview, hown⟩ := h.absorb_view hload hrow
  constructor
  · intro he
    have hid := hown e he
    rw [he] at hview
    exact ⟨hid ▸ hview, hid.symm⟩
  · rintro ⟨he, hid⟩
    exact hV _ _ _ hview (hid ▸ he)

/-- **Of some rows, the view of their identifiers comes out.** -/
theorem Holds.mem_absorbAll_iff (hV : Decides V) (hload : KeepsIds E) (e : E.Entity) : ∀ (rows : List E.Entity)
    {c : Cache E}, c.Holds V → (∀ row ∈ rows, Agrees V c row) →
      (e ∈ (c.absorbAll rows).1 ↔ V (E.idOf e) (some e) ∧ ∃ row ∈ rows, E.idOf row = E.idOf e)
  | [], _, _, _ => by simp [Cache.absorbAll]
  | row :: rest, c, h, hrows => by
    have hrow := hrows row List.mem_cons_self
    obtain ⟨hfirst, hlearnt, -⟩ := h.absorb hload hrow
    have hrest := Holds.mem_absorbAll_iff hV hload e rest hfirst
      fun row' hrow' => (hrows row' (List.mem_cons_of_mem row hrow')).extends hlearnt
    have hhere := h.absorb_eq_some_iff hV hload hrow e
    calc e ∈ (c.absorbAll (row :: rest)).1
        ↔ (c.absorb row).1 = some e ∨ e ∈ ((c.absorb row).2.absorbAll rest).1 := by
          rw [Cache.absorbAll, List.mem_append, Option.mem_toList]
      _ ↔ _ := by simp only [hhere, hrest, List.mem_cons, exists_eq_or_imp, and_or_left]

/-- What is found stays found while rows are absorbed, if it is what the view has; and so is the view of each row. -/
theorem Holds.get?_absorbRows (hV : Decides V) (hload : KeepsIds E) {e : E.Entity} (he : V (E.idOf e) (some e)) :
    ∀ (rows : List E.Entity) {c : Cache E} {found : Dict E.Id E.Entity}, c.Holds V → (∀ row ∈ rows, Agrees V c row) →
      (found.get? (E.idOf e) = some e ∨ ∃ row ∈ rows, E.idOf row = E.idOf e) →
        (c.absorbRows found rows).1.get? (E.idOf e) = some e
  | [], _, _, _, _, hfound => by
    rcases hfound with hfound | ⟨row, hrow, -⟩
    · exact hfound
    · cases hrow
  | row :: rest, c, found, h, hrows, hfound => by
    have hrow := hrows row List.mem_cons_self
    obtain ⟨hfirst, hlearnt, -⟩ := h.absorb hload hrow
    have hrest := fun row' hrow' => (hrows row' (List.mem_cons_of_mem row hrow')).extends hlearnt
    have hhere := h.absorb_eq_some_iff hV hload hrow
    rw [Cache.absorbRows]
    generalize c.absorb row = answer at hfirst hrest hhere
    obtain ⟨e?, c'⟩ := answer
    cases e? with
    | none =>
      refine Holds.get?_absorbRows hV hload he rest hfirst hrest (hfound.imp_right ?_)
      rintro ⟨row', hrow', hid⟩
      rcases List.mem_cons.1 hrow' with rfl | hrow'
      · cases (hhere e).2 ⟨he, hid⟩
      · exact ⟨row', hrow', hid⟩
    | some e' =>
      refine Holds.get?_absorbRows hV hload he rest hfirst hrest ?_
      rw [Dict.get?_insert]
      split
      · rename_i hid
        exact .inl ((hhere e).2 ⟨he, hid⟩)
      · rename_i hid
        refine hfound.imp_right ?_
        rintro ⟨row', hrow', hid'⟩
        rcases List.mem_cons.1 hrow' with rfl | hrow'
        · exact absurd hid' hid
        · exact ⟨row', hrow', hid'⟩

theorem Holds.mem_absorbRows (hV : Decides V) (hload : KeepsIds E) {e : E.Entity} : ∀ (rows : List E.Entity)
    {c : Cache E} {found : Dict E.Id E.Entity}, c.Holds V → (∀ row ∈ rows, Agrees V c row) →
      e ∈ (c.absorbRows found rows).1.values → e ∈ found.values ∨ ∃ row ∈ rows, E.idOf row = E.idOf e
  | [], _, _, _, _, he => .inl he
  | row :: rest, c, found, h, hrows, he => by
    have hrow := hrows row List.mem_cons_self
    obtain ⟨hfirst, hlearnt, -⟩ := h.absorb hload hrow
    have hrest := fun row' hrow' => (hrows row' (List.mem_cons_of_mem row hrow')).extends hlearnt
    have hhere := h.absorb_eq_some_iff hV hload hrow
    have hlater : (∃ row' ∈ rest, E.idOf row' = E.idOf e) → ∃ row' ∈ row :: rest, E.idOf row' = E.idOf e :=
      fun ⟨row', hrow', hid⟩ => ⟨row', List.mem_cons_of_mem row hrow', hid⟩
    rw [Cache.absorbRows] at he
    generalize c.absorb row = answer at hfirst hrest hhere he
    obtain ⟨e?, c'⟩ := answer
    cases e? with
    | none => exact (Holds.mem_absorbRows hV hload rest hfirst hrest he).imp_right hlater
    | some e' =>
      rcases Holds.mem_absorbRows hV hload rest hfirst hrest he with he | he
      · rcases Dict.mem_values_insert he with rfl | he
        · exact .inr ⟨row, List.mem_cons_self, ((hhere e).1 rfl).2⟩
        · exact .inl he
      · exact .inr (hlater he)

theorem Holds.lookup_eq (hV : Decides V) (h : c.Holds V) {e : E.Entity} (he : V (E.idOf e) (some e))
    (hknown : c.contains (E.idOf e) = true) : (c.lookup (E.idOf e)).bind Slot.entity? = some e := by
  obtain ⟨slot, hslot⟩ := Option.isSome_iff_exists.1 hknown
  rw [hslot, Option.bind_some]
  exact hV _ _ _ (h _ slot hslot).1 he

/-- What is held for some identifiers is what the view has of those that are known. -/
theorem Holds.get?_held (hV : Decides V) (h : c.Holds V) {e : E.Entity} (he : V (E.idOf e) (some e))
    (hknown : c.contains (E.idOf e) = true) {ids : List E.Id} (hid : E.idOf e ∈ ids) :
    (c.held ids).get? (E.idOf e) = some e := by
  have hlookup := h.lookup_eq hV he hknown
  induction ids using List.reverseRecOn with
  | nil => cases hid
  | append_singleton ids id ih =>
    rw [held_concat]
    by_cases heq : id = E.idOf e
    · rw [heq, hlookup]
      dsimp only
      rw [Dict.get?_insert, if_pos rfl]
    · have hids : E.idOf e ∈ ids := (List.mem_append.1 hid).resolve_right fun h => heq (List.mem_singleton.1 h).symm
      split
      · rw [Dict.get?_insert, if_neg heq]
        exact ih hids
      · exact ih hids

theorem Holds.mem_held (h : c.Holds V) {e : E.Entity} {ids : List E.Id} (he : e ∈ (c.held ids).values) :
    E.idOf e ∈ ids ∧ c.contains (E.idOf e) = true := by
  induction ids using List.reverseRecOn with
  | nil => cases he
  | append_singleton ids id ih =>
    have hbefore : e ∈ (c.held ids).values → E.idOf e ∈ ids ++ [id] ∧ c.contains (E.idOf e) = true :=
      fun he => (ih he).imp_left (List.mem_append_left _)
    rw [held_concat] at he
    split at he
    · rename_i e' he'
      rcases Dict.mem_values_insert he with rfl | he
      · obtain ⟨slot, hslot, hentity⟩ := Option.bind_eq_some_iff.1 he'
        have hid := (h id slot hslot).2 e hentity
        refine ⟨List.mem_append_right _ (List.mem_singleton.2 hid), ?_⟩
        unfold Cache.contains
        rw [hid, hslot]
        rfl
      · exact hbefore he
    · exact hbefore he

/-- **A merge gives out the view of the identifiers that are known, and of the rows.** -/
theorem Holds.mem_merged_iff (hV : Decides V) (h : c.Holds V) (hload : KeepsIds E) {ids : List E.Id}
    {rows es : List E.Entity} (hrows : ∀ row ∈ rows, Agrees V c row)
    (hes : E.sortById (c.absorbRows (c.held ids) rows).1.values = .ok es) (e : E.Entity) :
    e ∈ es ↔ V (E.idOf e) (some e) ∧
      ((E.idOf e ∈ ids ∧ c.contains (E.idOf e) = true) ∨ ∃ row ∈ rows, E.idOf row = E.idOf e) := by
  rw [EntityType.mem_sortById_iff hes]
  constructor
  · intro he
    refine ⟨(Holds.absorbRows hload rows h hrows (h.held ids)).2.2 e he, ?_⟩
    exact (Holds.mem_absorbRows hV hload rows h hrows he).imp_left h.mem_held
  · rintro ⟨he, hfrom⟩
    refine Dict.mem_values_of_get? (Holds.get?_absorbRows hV hload he rows h hrows (hfrom.imp_left ?_))
    exact fun ⟨hid, hknown⟩ => h.get?_held hV he hknown hid

end Cache

/-! ## What comes out of a statement -/

namespace Session

/-- A statement names an identifier that the cache knows. -/
def Remembers (s : Session C) (op : TableOp C) (k : κ) (id : (C k).Id) : Prop :=
  ∃ ids, op = .findMany k ids ∧ id ∈ ids ∧ (s.tx.cache k).contains id = true

variable {V : View C} {s s' : Session C} {k : κ}

/-- A statement gives out the view: that of the identifiers it remembers, and of the rows it asks for. -/
structure GivesOut (V : View C) (s s' : Session C) (op : TableOp C) (k : κ) (es : List (C k).Entity) : Prop where
  pinned : ∀ c, s.Asks op k c → s.tx.closedBy = none ∧ s'.tx.snapshot = some s.version
  given : ∀ e, e ∈ es ↔ V k ((C k).idOf e) (some e) ∧ (s.Remembers op k ((C k).idOf e) ∨
    ∃ c row, s.Asks op k c ∧ s.row k c = some row ∧ (C k).idOf row = (C k).idOf e)

/-- **A scan gives out the view of the rows that belong to it.** -/
theorem givesOut_scan (hs : s.storage.Sound) (hV : Cache.Decides (V k)) (hload : Cache.KeepsIds (C k))
    (h : (s.tx.cache k).Holds (V k)) {op : TableOp C} {scan : Scan X} {action : String}
    {keep : Cells X → Except Error Bool} (hremembers : ∀ id, ¬ s.Remembers op k id)
    (hasks : ∀ c, s.Asks op k c ↔ judged keep c = true) {es : List (C k).Entity} :
    let r := (s.lockScan k scan).read k action (rowsText k) ((s.lockScan k scan).collect k keep)
    ConfirmsRead V s (r.2.absorbRows k r.1).2 k → (r.2.absorbRows k r.1).1 = .ok es →
      GivesOut V s (r.2.absorbRows k r.1).2 op k es := by
  intro r hconfirms hes
  obtain ⟨hcaches, hoptions⟩ := s.caches_scan k scan action keep
  have hcache : r.2.tx.cache k = s.tx.cache k := cache_of_caches hcaches hoptions k
  cases hr : r.1 with
  | error e =>
    rw [hr] at hes
    cases hes
  | ok rows =>
    obtain ⟨ho, hsnapshot, hmem, hjudged⟩ := scan_eq_ok hs hr
    have hpinned : ∀ answer, (r.2.absorbRows k answer).2.tx.snapshot = some s.version :=
      fun answer => (snapshot_absorbRows ..).trans hsnapshot
    have hpresent := (hconfirms ho (hpinned _)).present
    have hgiven : ∀ e, e ∈ es ↔ V k ((C k).idOf e) (some e) ∧ ∃ row ∈ rows, (C k).idOf row = (C k).idOf e := by
      intro e
      rw [hr, absorbRows, hcache] at hes
      cases hes
      refine Cache.Holds.mem_absorbAll_iff hV hload e rows h fun row hrow => ?_
      obtain ⟨c, hc, -⟩ := (hmem row).1 hrow
      exact (hpresent c row hc).2
    refine ⟨fun _ _ => ⟨ho, hpinned _⟩, fun e => (hgiven e).trans (and_congr_right fun _ => ?_)⟩
    constructor
    · rintro ⟨row, hrow, hid⟩
      obtain ⟨c, hc, hkeep⟩ := (hmem row).1 hrow
      exact .inr ⟨c, row, (hasks c).2 ((hjudged c row hc).2 hkeep), hc, hid⟩
    · rintro (hremembered | ⟨c, row, hasked, hc, hid⟩)
      · exact absurd hremembered (hremembers _)
      · exact ⟨row, (hmem row).2 ⟨c, hc, (hjudged c row hc).1 ((hasks c).1 hasked)⟩, hid⟩

theorem givesOut_findAll (hs : s.storage.Sound) (hV : Cache.Decides (V k)) (hload : Cache.KeepsIds (C k))
    (h : (s.tx.cache k).Holds (V k)) (hconfirms : ConfirmsRead V s (s.findAll k).2 k) {es : List (C k).Entity}
    (hes : (s.findAll k).1 = .ok es) : GivesOut V s (s.findAll k).2 (.findAll k) k es :=
  givesOut_scan hs hV hload h (fun _ ⟨_, hop, _⟩ => by cases hop) (fun _ => by simp [Asks, judged]) hconfirms hes

theorem givesOut_findRange (hs : s.storage.Sound) (hV : Cache.Decides (V k)) (hload : Cache.KeepsIds (C k))
    (h : (s.tx.cache k).Holds (V k)) {r : Interval X} (hconfirms : ConfirmsRead V s (s.findRange k r).2 k)
    {es : List (C k).Entity} (hes : (s.findRange k r).1 = .ok es) :
    GivesOut V s (s.findRange k r).2 (.findRange k r) k es :=
  givesOut_scan hs hV hload h (fun _ ⟨_, hop, _⟩ => by cases hop)
    (fun _ => by simp only [Asks, true_and]; rfl) hconfirms hes

theorem remembers_findMany {ids : List (C k).Id} {id : (C k).Id} :
    s.Remembers (.findMany k ids) k id ↔ id ∈ ids ∧ (s.tx.cache k).contains id = true := by
  constructor
  · rintro ⟨_, hop, hid, hknown⟩
    cases hop
    exact ⟨hid, hknown⟩
  · rintro ⟨hid, hknown⟩
    exact ⟨ids, rfl, hid, hknown⟩

theorem asks_findMany {ids : List (C k).Id} {c : Cells X}
    (hpartial : ∃ isPartial, Cache.arePartial (E := C k) ids.eraseDups = .ok isPartial) :
    s.Asks (.findMany k ids) k c ↔
      ∃ id ∈ (s.tx.cache k).unknown ids.eraseDups, ∃ p, (C k).flatten id = .ok p ∧ Cells.Wants p c := by
  simp only [Asks, hpartial, Cache.unknown, List.mem_filter, List.mem_eraseDups, Bool.not_eq_true', true_and, and_assoc]

/-- **A read of identifiers gives out the view of those it remembers, and of the rows under the others.** -/
theorem givesOut_findMany (hs : s.storage.Sound) (hV : Cache.Decides (V k)) (hload : Cache.KeepsIds (C k))
    (h : (s.tx.cache k).Holds (V k)) {ids : List (C k).Id} (hconfirms : ConfirmsRead V s (s.findMany k ids).2 k)
    {es : List (C k).Entity} (hes : (s.findMany k ids).1 = .ok es) :
    GivesOut V s (s.findMany k ids).2 (.findMany k ids) k es := by
  have hmerge : ((s.tx.cache k).merge ids (fun wanted s => s.findUncached k wanted) s).1 = .ok es ∧
      (s.findMany k ids).2.tx.snapshot =
        ((s.tx.cache k).merge ids (fun wanted s => s.findUncached k wanted) s).2.2.tx.snapshot := by
    unfold Session.findMany at hes ⊢
    split at hes
    · cases hes
    · rename_i hr
      rw [hr]
      exact ⟨hes, rfl⟩
  obtain ⟨hmerge, hsnapshot⟩ := hmerge
  rcases Cache.merge_eq_ok hmerge with ⟨rfl, rfl⟩ | ⟨hpartial, rows, hsorted, hrows⟩
  · refine ⟨fun c hasked => ?_, fun e => ?_⟩
    · obtain ⟨-, -, id, hid, -⟩ := hasked
      cases hid
    · simp [remembers_findMany, Asks]
  have hasks := fun c => asks_findMany (s := s) (c := c) hpartial
  have hanswer : (∀ c, s.Asks (.findMany k ids) k c → s.tx.closedBy = none ∧
      (s.findMany k ids).2.tx.snapshot = some s.version) ∧
        (∀ row, row ∈ rows ↔ ∃ c, s.Asks (.findMany k ids) k c ∧ s.row k c = some row) ∧
          ∀ row ∈ rows, Cache.Agrees (V k) (s.tx.cache k) row := by
    -- either the cache knows all of them and nobody is asked, or the store answers for the others
    rcases hrows with ⟨hempty, rfl⟩ | ⟨hrows, hstate⟩
    · have hnone : ∀ c, ¬ s.Asks (.findMany k ids) k c := by
        intro c hasked
        rw [hasks, hempty] at hasked
        obtain ⟨id, hid, -⟩ := hasked
        cases hid
      exact ⟨fun c hasked => absurd hasked (hnone c), by simp [hnone], fun row hrow => by cases hrow⟩
    · obtain ⟨ho, hpinned, hmem⟩ := findUncached_eq_ok hs hrows
      have hpinned : (s.findMany k ids).2.tx.snapshot = some s.version := by rw [hsnapshot, hstate, hpinned]
      refine ⟨fun _ _ => ⟨ho, hpinned⟩, fun row => ?_, fun row hrow => ?_⟩
      · rw [hmem]
        simp only [hasks, Cells.Wants]
        constructor
        · rintro ⟨id, hid, p, hflat, c, hwants, hrow⟩
          exact ⟨c, ⟨id, hid, p, hflat, hwants⟩, hrow⟩
        · rintro ⟨c, ⟨id, hid, p, hflat, hwants⟩, hrow⟩
          exact ⟨id, hid, p, hflat, c, hwants, hrow⟩
      · obtain ⟨-, -, -, -, c, -, hc⟩ := (hmem row).1 hrow
        exact ((hconfirms ho hpinned).present c row hc).2
  obtain ⟨hpinned, hmem, hagrees⟩ := hanswer
  refine ⟨hpinned, fun e => (h.mem_merged_iff hV hload hagrees hsorted e).trans (and_congr_right fun _ => ?_)⟩
  refine or_congr ?_ ?_
  · rw [remembers_findMany, List.mem_eraseDups]
  · constructor
    · rintro ⟨row, hrow, hid⟩
      obtain ⟨c, hasked, hc⟩ := (hmem row).1 hrow
      exact ⟨c, row, hasked, hc, hid⟩
    · rintro ⟨c, row, hasked, hc, hid⟩
      exact ⟨row, (hmem row).2 ⟨c, hasked, hc⟩, hid⟩

end Session

namespace TableOp

/-- Whether a statement reads a set of identifiers. -/
def isSetRead : TableOp C → Bool
  | .findMany _ _ | .findRange _ _ | .findAll _ => true
  | _ => false

/-- The entities in the answer of a set read. -/
def listed : (op : TableOp C) → op.Answer → List (C op.kind).Entity
  | .findMany _ _, es | .findRange _ _, es | .findAll _, es => es
  | _, _ => []

omit [DecidableEq κ] in
theorem gives_iff_mem_listed {op : TableOp C} (hop : op.isSetRead = true) (a : op.Answer) (e : (C op.kind).Entity) :
    op.Gives a op.kind ((C op.kind).idOf e) (some e) ↔ e ∈ op.listed a := by
  constructor
  · intro h
    generalize hid : (C op.kind).idOf e = id at h
    cases h with
    | find => cases hop
    | findMany _ _ _ _ he => exact he
    | findRange _ _ _ _ he => exact he
    | findAll _ _ _ he => exact he
  · intro he
    cases op with
    | findMany k ids => exact .findMany k ids a e he
    | findRange k r => exact .findRange k r a e he
    | findAll k => exact .findAll k a e he
    | _ => cases hop

end TableOp

theorem Session.givesOut_setRead {V : View C} {s : Session C} {op : TableOp C} (hop : op.isSetRead = true)
    (hs : s.storage.Sound) (hV : Cache.Decides (V op.kind)) (hload : Cache.KeepsIds (C op.kind))
    (h : (s.tx.cache op.kind).Holds (V op.kind)) (hconfirms : ConfirmsRead V s (op.runOpen s).2 op.kind) {a : op.Answer}
    (ha : (op.runOpen s).1 = .ok a) : GivesOut V s (op.runOpen s).2 op op.kind (op.listed a) := by
  cases op with
  | findMany k ids => exact givesOut_findMany hs hV hload h hconfirms ha
  | findRange k r => exact givesOut_findRange hs hV hload h hconfirms ha
  | findAll k => exact givesOut_findAll hs hV hload h hconfirms ha
  | _ => cases hop

/-! ## What comes out of a repository -/

namespace Chronicle

variable {ch : Chronicle C} {s s' : Session C}

/-- The storage has a row to show to a transaction, wherever there is an entity in its view: in the immediate write mode
always, and with delayed writes if its snapshot has one. -/
def Shows (ch : Chronicle C) (t : Transaction C) (k : κ) (c : Cells X) : Prop :=
  t.options.isImmediate = true ∨ ∃ v row, t.snapshot = some v ∧ (ch.ledger t.home).row v k c = some row

theorem decides_view (ch : Chronicle C) (t : Transaction C) (k : κ) : Cache.Decides (ch.View t k) := by
  intro id e? e?' h h'
  exact Option.some.inj (h.symm.trans h')

theorem View.of_flatten_eq {t : Transaction C} {k : κ} {id id' : (C k).Id} (hid : (C k).flatten id = (C k).flatten id')
    {e? : Option (C k).Entity} (h : ch.View t k id e?) : ch.View t k id' e? := by
  unfold View view? at h ⊢
  rw [← hid]
  exact h

/-- **The rows of the storage are those that the view needs**, but for the own insertions that are still in the queue. -/
theorem Knows.exists_row_iff (h : ch.Knows s) (hs : s.Sound) (hledger : ch.Records s) (hid : s'.tx.id = s.tx.id)
    (hhome : s'.tx.home = s.tx.home) (hoptions : s'.tx.options = s.tx.options)
    (hsnapshot : s'.tx.snapshot = some s.version) {k : κ} {id : (C k).Id} {c : Cells X} {e : (C k).Entity}
    (hc : (C k).flatten id = .ok c) (hview : ch.View s'.tx k id (some e)) :
    (∃ row, s.row k c = some row) ↔ ch.Shows s'.tx k c := by
  have hdelayed : s.tx.options.isImmediate = false → s.row k c = (ch.ledger s.tx.home).row s.version k c := by
    intro hd
    unfold Session.row
    rw [Storage.read_eq, h.draft?_eq hs, hd, hledger]
    rfl
  unfold Shows
  rw [hoptions, hhome, hsnapshot]
  constructor
  · rintro ⟨row, hrow⟩
    cases hi : s.tx.options.isImmediate with
    | true => exact .inl rfl
    | false => exact .inr ⟨s.version, row, rfl, hdelayed hi ▸ hrow⟩
  · intro hshows
    cases hi : s.tx.options.isImmediate with
    | false =>
      obtain ⟨v, row, hv, hrow⟩ := hshows.resolve_left (by rw [hi]; exact Bool.false_ne_true)
      cases hv
      exact ⟨row, (hdelayed hi).trans hrow⟩
    | true =>
      unfold View at hview
      rw [view?_of_flatten hc, hid, hhome, hsnapshot] at hview
      cases hlast : lastRow? (ch.accepted s.tx.id) k c with
      | none =>
        rw [hlast, Option.none_or, Option.map_some, ← h.row_of_unwritten hs hledger hlast] at hview
        obtain ⟨row, hrow, -⟩ := Option.map_eq_some_iff.1 (Option.some.inj hview)
        exact ⟨row, hrow⟩
      | some own =>
        rw [hlast, Option.some_or] at hview
        cases hview
        obtain ⟨v, hv, hread⟩ := h.own hi k c _ hlast
        refine ⟨e, ?_⟩
        unfold Session.row
        rw [Session.version_of_snapshot hv]
        exact hread

/-- **A set read on an open table gives out the view of what it remembers and of what it is shown.** -/
theorem Mirrors.mem_iff (hm : ch.Mirrors s) (h : s.tx.closedBy = none → ch.Knows s) (hload : ∀ k, Cache.KeepsIds (C k))
    (hs : s.Sound) (hledger : ch.Records s) (hkeyed : ch.IsKeyed) (hadv : Session.Advances s s') {op : TableOp C} {k : κ}
    {es : List (C k).Entity} (hgives : Session.GivesOut (ch.View s'.tx) s s' op k es) (e : (C k).Entity) :
    e ∈ es ↔ ch.View s'.tx k ((C k).idOf e) (some e) ∧ (s.Remembers op k ((C k).idOf e) ∨
      ∃ c, (C k).flatten ((C k).idOf e) = .ok c ∧ s.Asks op k c ∧ ch.Shows s'.tx k c) := by
  refine (hgives.given e).trans (and_congr_right fun hview => or_congr_right (exists_congr fun c => ?_))
  constructor
  · rintro ⟨row, hasked, hrow, hid⟩
    obtain ⟨ho, hpinned⟩ := hgives.pinned c hasked
    have hc := (h ho).flatten_of_row hs hledger hkeyed hrow
    rw [hid] at hc
    exact ⟨hc, hasked, ((h ho).exists_row_iff hs hledger hadv.id hadv.home hadv.options hpinned hc hview).1 ⟨row, hrow⟩⟩
  · rintro ⟨hc, hasked, hshows⟩
    obtain ⟨ho, hpinned⟩ := hgives.pinned c hasked
    obtain ⟨row, hrow⟩ :=
      ((h ho).exists_row_iff hs hledger hadv.id hadv.home hadv.options hpinned hc hview).2 hshows
    obtain ⟨hflat, hagrees⟩ := (hm.confirms (h ho) hs hledger hkeyed hadv.id hadv.home hpinned k).present c row hrow
    have hholds : (s.tx.cache k).Holds (ch.View s'.tx k) := (hm.holds k).mono fun _ _ => View.advances hadv
    -- the row and the entity have the same key, so that what the row comes out as is the entity
    obtain ⟨habsorbed, hown⟩ := hholds.absorb_view (hload k) hagrees
    have hsame := ch.decides_view s'.tx k _ _ _ (habsorbed.of_flatten_eq (hflat.trans hc.symm)) hview
    exact ⟨row, hasked, hrow, (hown e hsame).symm⟩

theorem Mirrors.gives_iff (hC : WellIdentified C) (hm : ch.Mirrors s) (h : s.tx.closedBy = none → ch.Knows s)
    (hs : s.Sound) (hledger : ch.Records s) (hkeyed : ch.IsKeyed) {op : TableOp C} (hop : op.isSetRead = true)
    {a : op.Answer} (ha : (op.runOpen s).1 = .ok a) (e : (C op.kind).Entity) :
    op.Gives a op.kind ((C op.kind).idOf e) (some e) ↔
      ch.View (op.runOpen s).2.tx op.kind ((C op.kind).idOf e) (some e) ∧
        (s.Remembers op op.kind ((C op.kind).idOf e) ∨ ∃ c, (C op.kind).flatten ((C op.kind).idOf e) = .ok c ∧
          s.Asks op op.kind c ∧ ch.Shows (op.runOpen s).2.tx op.kind c) := by
  have hadv := (op.effect_runOpen s).advances
  have hgives := Session.givesOut_setRead hop hs.storage (ch.decides_view (op.runOpen s).2.tx op.kind)
    (hC.keepsIds op.kind) ((hm.holds op.kind).mono fun _ _ => View.advances hadv)
    (fun ho hsnapshot => hm.confirms (h ho) hs hledger hkeyed hadv.id hadv.home hsnapshot op.kind) ha
  rw [TableOp.gives_iff_mem_listed hop]
  exact hm.mem_iff h hC.keepsIds hs hledger hkeyed hadv hgives e

end Chronicle

theorem Session.asks_congr {s s' : Session C} (h : ∀ k, s'.tx.cache k = s.tx.cache k) (op : TableOp C) (k : κ)
    (c : Cells X) : s'.Asks op k c ↔ s.Asks op k c := by
  cases op <;> simp only [Asks, h]

/-- **What a set read gives out.**  Let a transaction with a cache have written complete identifiers only.  An entity
comes out of a set read just if it is the view of its identifier, and the statement either names the identifier and the
cache knows it, or asks for its key and the storage has a row to show there.  So in the immediate write mode all of the
view comes out that is asked for; with delayed writes the own insertions of rows that the snapshot lacks do not. -/
theorem Repository.mem_set_read_iff (hC : WellIdentified C) (as : List (Action C)) (id : TxId) (op : TableOp C)
    (hop : op.isSetRead = true) (hops : ∀ op', .statement id op' ∈ as → op'.WritesComplete) (s₀ s : Session C)
    (hs₀ : (({} : Repository C).after as).session? id = some s₀)
    (hs : (({} : Repository C).after (as ++ [.statement id op])).session? id = some s)
    (hcache : s.tx.options.cache = true) (a : op.Answer)
    (ha : ((({} : Repository C).after as).perform (.statement id op)).1 = .ok a) (e : (C op.kind).Entity) :
    let ch := ({} : Chronicle C).along {} as
    op.Gives a op.kind ((C op.kind).idOf e) (some e) ↔
      ch.view? s.tx op.kind ((C op.kind).idOf e) = some (some e) ∧
        (s₀.Remembers op op.kind ((C op.kind).idOf e) ∨ ∃ c, (C op.kind).flatten ((C op.kind).idOf e) = .ok c ∧
          s₀.Asks op op.kind c ∧ ch.Shows s.tx op.kind c) := by
  intro ch
  have hr := sound_after (sound_empty (C := C)) as
  have htells := Chronicle.tells_along Chronicle.tells_empty (sound_empty (C := C)) as
  obtain ⟨hmirrors, hkeyed⟩ := Chronicle.mirrorsOf_along_of_writes hC id as sound_empty Chronicle.tells_empty
    Chronicle.isKeyed_empty (Chronicle.mirrorsOf_empty id) hops
  obtain ⟨-, -, hhome, hsound⟩ := hr.session id s₀ hs₀
  have hadv := s₀.advances_statement op
  have hperform : (({} : Repository C).after as).perform (.statement id op) =
      ((op.run s₀).1, (({} : Repository C).after as).putSession (op.run s₀).2) := onSession_of_some hs₀ op.run
  rw [after_concat, next, hperform, session?_putSession_of_advances hr hs₀ hadv] at hs
  rw [hperform] at ha
  cases hs
  have hopens := Session.Reads.openTable s₀ op.kind
  have hsame := s₀.cache_openTable op.kind
  have hledger : ch.Records (s₀.openTable op.kind) := by
    unfold Chronicle.Records
    rw [hopens.storage, hopens.home, storage_of_session? hs₀]
    exact htells.ledger _ hhome
  have hgives := ((hmirrors s₀ hs₀ (hadv.options ▸ hcache)).of_cache_eq hopens.advances hsame).gives_iff hC
    (fun ho => (htells.session id s₀ hs₀ (hopens.closedBy ▸ ho)).reads hopens) (hopens.advances.sound hsound) hledger
    hkeyed hop ha e
  unfold Session.Remembers at hgives ⊢
  simp only [Session.asks_congr hsame, hsame] at hgives
  exact hgives

namespace Sample

/-- Two accounts are published; a transaction replaces the first, deletes the second and adds a third. -/
def rewriting (options : TxOptions) : List (Action marked) :=
  [.start {}, .statement 1 (.save () (Account.mk ⟨"first"⟩ "" 100)),
    .statement 1 (.save () (Account.mk ⟨"second"⟩ "" 200)), .commit 1,
    .start options, .statement 2 (.save () (Account.mk ⟨"first"⟩ "" 300)),
    .statement 2 (.delete () (AccountId.mk "second")), .statement 2 (.insert () (Account.mk ⟨"third"⟩ "" 400))]

theorem writesComplete_rewriting (options : TxOptions) (op : TableOp marked)
    (hop : .statement 2 op ∈ rewriting options) : op.WritesComplete := by
  simp only [rewriting, List.mem_cons, Action.statement.injEq, reduceCtorEq, List.not_mem_nil, or_false, false_or,
    true_and, Nat.reduceEqDiff, false_and] at hop
  rcases hop with rfl | rfl | rfl <;> exact isComplete_marked _

end Sample

open Sample in
theorem Repository.mem_set_read_iff_rewriting :
    let r := ({} : Repository marked).after (rewriting {})
    let ch := ({} : Chronicle marked).along {} (rewriting {})
    ∃ s, (({} : Repository marked).after (rewriting {} ++ [.statement 2 (.findAll ())])).session? 2 = some s ∧
      (r.perform (.statement 2 (.findAll ()))).1 = .ok [⟨⟨"first"⟩, "", 310⟩] ∧
      ch.view? s.tx () ⟨"first"⟩ = some (some ⟨⟨"first"⟩, "", 310⟩) ∧ ch.Shows s.tx () [some (.string "first")] := by
  intro r ch
  have hfound : (r.perform (.statement 2 (.findAll ()))).1 = .ok [⟨⟨"first"⟩, "", 310⟩] := rfl
  obtain ⟨s₀, hs₀⟩ : ∃ s₀, r.session? 2 = some s₀ := ⟨_, rfl⟩
  obtain ⟨s, hs, hcache⟩ := (Option.any_eq_true (fun s : Session marked => s.tx.options.cache)
    ((({} : Repository marked).after (rewriting {} ++ [.statement 2 (.findAll ())])).session? 2)).1 (by decide +kernel)
  obtain ⟨hview, hremembers | ⟨c, hc, -, hshows⟩⟩ := (mem_set_read_iff wellIdentified_marked (rewriting {}) 2 (.findAll ())
    rfl (writesComplete_rewriting _) s₀ s hs₀ hs hcache _ hfound ⟨⟨"first"⟩, "", 310⟩).1
      (.findAll _ _ _ List.mem_cons_self)
  · obtain ⟨ids, hop, -⟩ := hremembers
    cases hop
  · cases hc
    exact ⟨s, hs, hfound, hview, hshows⟩

open Sample in
example : ((({} : Repository marked).after (rewriting { writeMode := .immediate })).perform
    (.statement 2 (.findAll ()))).1 = .ok [⟨⟨"first"⟩, "", 310⟩, ⟨⟨"third"⟩, "", 410⟩] := rfl

open Sample in
/-- With delayed writes the third account is in view, and does not come out. -/
theorem Repository.set_read_misses_insertion :
    let r := ({} : Repository marked).after (rewriting {})
    let ch := ({} : Chronicle marked).along {} (rewriting {})
    (r.session? 2).map (fun s => (s.tx.closedBy, s.tx.options.cache)) = some (none, true) ∧
      lastRow? (ch.accepted 2) () [some (.string "third")] = some (some ⟨⟨"third"⟩, "", 410⟩) ∧
      (r.perform (.statement 2 (.findAll ()))).1 = .ok [⟨⟨"first"⟩, "", 310⟩] := ⟨rfl, rfl, rfl⟩

end EntityStore

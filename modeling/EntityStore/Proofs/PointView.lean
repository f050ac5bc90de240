import EntityStore.Proofs.Commits
import EntityStore.Proofs.Sightings
import EntityStore.Proofs.Turns
/-!
# The point view of an attempt

A transaction with a cache has one view of every identifier: what its own last write has left there, or else, with the
load hook applied once, the row that its snapshot shows (`Chronicle.view?`).  `Repository.read_eq_view` says that no
read ever gives out anything else.  The caches carry it: `Chronicle.Mirrors` is what they agree on with the chronicle,
and whatever is done by whomever keeps it.
-/
namespace EntityStore

variable {X : Scalars} {κ : Type} [DecidableEq κ] {C : κ → EntityType X}

/-! ## Rows lie under their own identifiers -/

/-- The row that a write leaves lies under the flat form of its own identifier. -/
def TableWrite.IsKeyed (w : TableWrite C) : Prop :=
  ∀ e, w.write.change.row? = some e → (C w.kind).flatten ((C w.kind).idOf e) = .ok w.write.cells

omit [DecidableEq κ] in
theorem TableOp.isKeyed_of_write? {op : TableOp C} {w : TableWrite C} (h : op.write? = some w) : w.IsKeyed := by
  intro e he
  rcases TableOp.write?_cases h with ⟨e', -, hflat, hrow⟩ | ⟨id, -, -, hrow⟩
  · rw [hrow] at he
    cases he
    exact hflat
  · rw [hrow] at he
    cases he

theorem flatten_of_lastRow? {k : κ} {c : Cells X} {e : (C k).Entity} : ∀ {ws : List (TableWrite C)},
    (∀ w ∈ ws, w.IsKeyed) → lastRow? ws k c = some (some e) → (C k).flatten ((C k).idOf e) = .ok c
  | [], _, h => by cases h
  | w :: rest, hws, h => by
    rw [lastRow?, Option.or_eq_some_iff] at h
    rcases h with h | ⟨-, h⟩
    · exact flatten_of_lastRow? (fun w' hw' => hws w' (List.mem_cons_of_mem w hw')) h
    · have hw := hws w List.mem_cons_self
      obtain ⟨j, w⟩ := w
      by_cases hj : j = k
      · subst hj
        rw [TableWrite.row?_self] at h
        split at h
        · rename_i hc
          exact hc ▸ hw e (Option.some.inj h)
        · cases h
      · rw [TableWrite.row?_of_ne hj] at h
        cases h

theorem flatten_of_ledger_row {k : κ} {c : Cells X} {e : (C k).Entity} {u : Nat} : ∀ {l : Ledger C},
    (∀ p ∈ l, ∀ w ∈ p.writes, w.IsKeyed) → l.row u k c = some e → (C k).flatten ((C k).idOf e) = .ok c
  | [], _, h => by cases h
  | p :: rest, hl, h => by
    have hrest := flatten_of_ledger_row (e := e) (u := u) (c := c)
      fun p' hp' => hl p' (List.mem_cons_of_mem p hp')
    rw [Ledger.row] at h
    split at h
    · cases hlast : lastRow? p.writes k c with
      | none =>
        rw [hlast] at h
        exact hrest h
      | some row =>
        rw [hlast] at h
        exact flatten_of_lastRow? (hl p List.mem_cons_self) (hlast.trans (congrArg some h))
    · exact hrest h

namespace Chronicle

/-- All writes that a chronicle knows of are keyed. -/
structure IsKeyed (ch : Chronicle C) : Prop where
  accepted : ∀ id, ∀ w ∈ ch.accepted id, w.IsKeyed
  effective : ∀ id, ∀ w ∈ ch.effective id, w.IsKeyed
  published : ∀ p, ch.Holds p → ∀ w ∈ p.writes, w.IsKeyed

omit [DecidableEq κ] in
theorem isKeyed_empty : ({} : Chronicle C).IsKeyed where
  accepted _ _ h := by cases h
  effective _ _ h := by cases h
  published p hp := by
    rcases hp with ⟨home, hp⟩ | ⟨sid, hp⟩
    · cases hp
    · cases hp

theorem IsKeyed.noteStatement {ch : Chronicle C} (h : ch.IsKeyed) (s : Session C) (op : TableOp C) :
    (ch.noteStatement s op).IsKeyed := by
  unfold Chronicle.noteStatement
  split
  · rename_i w hw
    have hkeyed : w.IsKeyed := by
      unfold Session.accepts? at hw
      split at hw
      · exact TableOp.isKeyed_of_write? hw
      · cases hw
    refine ⟨fun id w' hw' => ?_, fun id w' hw' => ?_, h.published⟩
    · rcases mem_of_mem_update hw' with hw' | hw'
      · rcases List.mem_append.1 hw' with hw' | hw'
        · exact h.accepted _ w' hw'
        · exact List.mem_singleton.1 hw' ▸ hkeyed
      · exact h.accepted id w' hw'
    · rcases mem_of_mem_update hw' with hw' | hw'
      · rcases List.mem_append.1 hw' with hw' | hw'
        · exact h.effective _ w' hw'
        · split at hw'
          · exact List.mem_singleton.1 hw' ▸ hkeyed
          · cases hw'
      · exact h.effective id w' hw'
  · exact h

theorem IsKeyed.noteCommit {ch : Chronicle C} (h : ch.IsKeyed) (s : Session C) : (ch.noteCommit s).IsKeyed := by
  unfold Chronicle.noteCommit
  split
  · refine ⟨h.accepted, h.effective, fun p hp => ?_⟩
    rcases holds_update_ledger hp with hp | hp
    · rcases List.mem_cons.1 hp with rfl | hp
      · exact h.effective _
      · exact h.published p (.inl ⟨_, hp⟩)
    · exact h.published p hp
  · exact h

theorem IsKeyed.note {ch : Chronicle C} (h : ch.IsKeyed) (r : Repository C) (a : Action C) : (ch.note r a).IsKeyed := by
  cases a with
  | statement id op =>
    unfold Chronicle.note
    dsimp only
    split
    · exact h.noteStatement _ op
    · exact h
  | commit id =>
    unfold Chronicle.note
    dsimp only
    split
    · exact h.noteCommit _
    · exact h
  | makeSnapshot sid =>
    refine ⟨h.accepted, h.effective, fun p hp => ?_⟩
    rcases holds_update_saved hp with hp | hp
    · exact h.published p (.inl ⟨_, hp⟩)
    · exact h.published p hp
  | loadSnapshot sid =>
    unfold Chronicle.note
    dsimp only
    split
    · refine ⟨h.accepted, h.effective, fun p hp => ?_⟩
      rcases holds_update_ledger hp with hp | hp
      · exact h.published p (.inr ⟨_, hp⟩)
      · exact h.published p hp
    · exact h
  | _ => exact h

theorem IsKeyed.along : ∀ (as : List (Action C)) {ch : Chronicle C} (r : Repository C), ch.IsKeyed →
    (ch.along r as).IsKeyed
  | [], _, _, h => h
  | a :: rest, _, r, h => IsKeyed.along rest (r.next a) (h.note r a)

/-! ## The view -/

/-- What an identifier is to a transaction: what its own last accepted write has left there, or else the row that its
snapshot shows, as the load hook leaves it. -/
def view? (ch : Chronicle C) (t : Transaction C) (k : κ) (id : (C k).Id) : Option (Option (C k).Entity) :=
  match (C k).flatten id with
  | .error _ => none
  | .ok c =>
    (lastRow? (ch.accepted t.id) k c).or (t.snapshot.map fun v => ((ch.ledger t.home).row v k c).map (C k).onLoad)

/-- The view as a relation. -/
def View (ch : Chronicle C) (t : Transaction C) : EntityStore.View C := fun k id e? => ch.view? t k id = some e?

theorem view?_of_flatten {ch : Chronicle C} {t : Transaction C} {k : κ} {id : (C k).Id} {c : Cells X}
    (h : (C k).flatten id = .ok c) :
    ch.view? t k id = (lastRow? (ch.accepted t.id) k c).or
      (t.snapshot.map fun v => ((ch.ledger t.home).row v k c).map (C k).onLoad) := by
  unfold view?
  rw [h]

theorem view?_mono {ch ch' : Chronicle C} {t t' : Transaction C} (hid : t'.id = t.id) (hhome : t'.home = t.home)
    (hsnapshot : ∀ v, t.snapshot = some v → t'.snapshot = some v ∧
      ∀ k c, (ch'.ledger t.home).row v k c = (ch.ledger t.home).row v k c) {k : κ} {id : (C k).Id}
    (hlast : ∀ c, (C k).flatten id = .ok c → lastRow? (ch'.accepted t.id) k c = lastRow? (ch.accepted t.id) k c)
    {e? : Option (C k).Entity} (h : ch.view? t k id = some e?) : ch'.view? t' k id = some e? := by
  cases hc : (C k).flatten id with
  | error e =>
    unfold view? at h
    rw [hc] at h
    cases h
  | ok c =>
    rw [view?_of_flatten hc] at h ⊢
    rw [hid, hhome, hlast c hc]
    rw [Option.or_eq_some_iff] at h ⊢
    refine h.imp_right (And.imp_right fun hrow => ?_)
    obtain ⟨v, hv, hrow⟩ := Option.map_eq_some_iff.1 hrow
    obtain ⟨hv', hledger⟩ := hsnapshot v hv
    rw [hv', Option.map_some, hledger, hrow]

/-- What the caches of a transaction and the chronicle agree on: the slots are what the view has, and the cache knows
all that the transaction has written. -/
structure Mirrors (ch : Chronicle C) (s : Session C) : Prop where
  complete : ∀ w ∈ ch.accepted s.tx.id, Cells.isPartial w.write.cells = false
  enabled : ∀ k, (s.tx.cache k).enabled = true
  holds : ∀ k, (s.tx.cache k).Holds (ch.View s.tx k)
  written : ∀ k id c, (C k).flatten id = .ok c → lastRow? (ch.accepted s.tx.id) k c ≠ none →
    (s.tx.cache k).lookup id ≠ none

/-! ## The rows that a transaction sees -/

section

variable {ch : Chronicle C} {s s' : Session C}

theorem Knows.draft?_eq (h : ch.Knows s) (hs : s.Sound) (k : κ) (c : Cells X) :
    s.storage.draft? s.tx.id k c = if s.tx.options.isImmediate then lastRow? (ch.effective s.tx.id) k c else none := by
  cases hi : s.tx.options.isImmediate with
  | true => exact h.drafts hi k c
  | false => exact hs.storage.draft?_of_untouched (hs.untouched_of_delayed hi) k c

/-- The ledger is that of the storage that the session works on. -/
def Records (ch : Chronicle C) (s : Session C) : Prop :=
  ∀ u k c, s.storage.published u k c = (ch.ledger s.tx.home).row u k c

/-- Where it has not written, an open transaction sees what was published by its version. -/
theorem Knows.row_of_unwritten (h : ch.Knows s) (hs : s.Sound) (hledger : ch.Records s) {k : κ} {c : Cells X}
    (hlast : lastRow? (ch.accepted s.tx.id) k c = none) : s.row k c = (ch.ledger s.tx.home).row s.version k c := by
  have heffective : lastRow? (ch.effective s.tx.id) k c = none := by
    rcases h.effective k c with he | ⟨he, -⟩
    · rw [he, hlast]
    · exact he
  unfold Session.row
  rw [Storage.read_eq, h.draft?_eq hs, heffective, ite_self, hledger]
  rfl

/-- An open transaction sees every row under the flat form of the row's identifier. -/
theorem Knows.flatten_of_row (h : ch.Knows s) (hs : s.Sound) (hledger : ch.Records s) (hkeyed : ch.IsKeyed) {k : κ}
    {c : Cells X} {e : (C k).Entity} (hrow : s.row k c = some e) : (C k).flatten ((C k).idOf e) = .ok c := by
  unfold Session.row at hrow
  rw [Storage.read_eq, h.draft?_eq hs, hledger] at hrow
  cases hdraft : (if s.tx.options.isImmediate then lastRow? (ch.effective s.tx.id) k c else none) with
  | some row =>
    rw [hdraft, Option.getD_some] at hrow
    split at hdraft
    · exact flatten_of_lastRow? (hkeyed.effective _) (hdraft.trans (congrArg some hrow))
    · cases hdraft
  | none =>
    rw [hdraft, Option.getD_none] at hrow
    exact flatten_of_ledger_row (fun p hp => hkeyed.published p (.inl ⟨_, hp⟩)) hrow

/-- **The caches leave out nothing that the transaction has written**, so the view agrees with the rows of what they do
not know. -/
theorem Mirrors.confirms (hm : ch.Mirrors s) (h : ch.Knows s) (hs : s.Sound) (hledger : ch.Records s)
    (hkeyed : ch.IsKeyed) (hid : s'.tx.id = s.tx.id) (hhome : s'.tx.home = s.tx.home)
    (hsnapshot : s'.tx.snapshot = some s.version) (k : κ) : s.Confirms (ch.View s'.tx) k := by
  have hview : ∀ id c, (C k).flatten id = .ok c → (s.tx.cache k).lookup id = none →
      ch.View s'.tx k id ((s.row k c).map (C k).onLoad) := by
    intro id c hc hnone
    have hlast : lastRow? (ch.accepted s.tx.id) k c = none := by
      by_contra hne
      exact hm.written k id c hc hne hnone
    unfold View
    rw [view?_of_flatten hc, hid, hhome, hlast, hsnapshot, Option.none_or, Option.map_some,
      h.row_of_unwritten hs hledger hlast]
  refine ⟨fun c e hrow => ?_, fun id c hc _ hrow hnone => ?_⟩
  · have hc := h.flatten_of_row hs hledger hkeyed hrow
    refine ⟨hc, fun hnone => ?_⟩
    have := hview _ c hc hnone
    rw [hrow] at this
    exact this
  · have := hview id c hc hnone
    rw [hrow] at this
    exact this

/-! ## What the statements of the transaction itself make of it -/

theorem View.advances (hadv : Session.Advances s s') {k : κ} {id : (C k).Id} {e? : Option (C k).Entity}
    (h : ch.View s.tx k id e?) : ch.View s'.tx k id e? :=
  view?_mono hadv.id hadv.home (fun v hv => ⟨hadv.snapshot v hv, fun _ _ => rfl⟩) (fun _ _ => rfl) h

theorem Mirrors.transfer {ch' : Chronicle C} (hm : ch.Mirrors s) (hid : s'.tx.id = s.tx.id)
    (hhome : s'.tx.home = s.tx.home) (hsnapshot : ∀ v, s.tx.snapshot = some v → s'.tx.snapshot = some v ∧
      ∀ k c, (ch'.ledger s.tx.home).row v k c = (ch.ledger s.tx.home).row v k c)
    (haccepted : ch'.accepted s.tx.id = ch.accepted s.tx.id) (hcache : ∀ k, s'.tx.cache k = s.tx.cache k) :
    ch'.Mirrors s' where
  complete := by
    rw [hid, haccepted]
    exact hm.complete
  enabled k := hcache k ▸ hm.enabled k
  holds k := hcache k ▸ (hm.holds k).mono fun _ _ => view?_mono hid hhome hsnapshot fun _ _ => by rw [haccepted]
  written k := by
    rw [hid, haccepted, hcache k]
    exact hm.written k

theorem Mirrors.of_cache_eq (hm : ch.Mirrors s) (hadv : Session.Advances s s')
    (hcache : ∀ k, s'.tx.cache k = s.tx.cache k) : ch.Mirrors s' :=
  hm.transfer hadv.id hadv.home (fun v hv => ⟨hadv.snapshot v hv, fun _ _ => rfl⟩) rfl hcache

theorem Mirrors.reflects (hm : ch.Mirrors s) (hadv : Session.Advances s s') {k : κ}
    (h : Session.Reflects (ch.View s'.tx) s s' k) : ch.Mirrors s' where
  complete := hadv.id ▸ hm.complete
  enabled j := by
    by_cases hj : j = k
    · subst hj
      exact h.learns.enabled.trans (hm.enabled j)
    · exact h.others j hj ▸ hm.enabled j
  holds j := by
    by_cases hj : j = k
    · subst hj
      exact h.holds
    · exact h.others j hj ▸ (hm.holds j).mono fun _ _ => View.advances hadv
  written j id c hc hlast := by
    rw [hadv.id] at hlast
    have hknown := hm.written j id c hc hlast
    by_cases hj : j = k
    · subst hj
      exact fun hnone => hknown (h.learns.known id hnone)
    · rw [h.others j hj]
      exact hknown

theorem Mirrors.overwrites (hids : ∀ k, (C k).TellsApart) (hm : ch.Mirrors s) (hadv : Session.Advances s s')
    {w : TableWrite C} (hcomplete : Cells.isPartial w.write.cells = false) (h : Session.Overwrites s s' w)
    (leaves : Bool) : (ch.noteWrite s.tx.id w leaves).Mirrors s' := by
  obtain ⟨id, slot, hflat, hslot, hown, hcache, hothers⟩ := h
  have hlast := accepted_noteWrite ch s.tx.id w leaves
  have hself : w.row? w.kind w.write.cells = some w.write.change.row? := by
    rw [TableWrite.row?_self, if_pos rfl]
  -- the write does not touch the view of any other identifier
  have hview : ∀ k (id' : (C k).Id) e?, (∀ c, (C k).flatten id' = .ok c → w.row? k c = none) →
      ch.View s.tx k id' e? → (ch.noteWrite s.tx.id w leaves).View s'.tx k id' e? := by
    intro k id' e? hnone hV
    have hsame : ∀ c, (C k).flatten id' = .ok c →
        lastRow? ((ch.noteWrite s.tx.id w leaves).accepted s.tx.id) k c = lastRow? (ch.accepted s.tx.id) k c := by
      intro c hc
      rw [hlast, hnone c hc, Option.none_or]
    have hstay : ∀ v, s.tx.snapshot = some v → s'.tx.snapshot = some v ∧ ∀ k c,
        ((ch.noteWrite s.tx.id w leaves).ledger s.tx.home).row v k c = (ch.ledger s.tx.home).row v k c :=
      fun v hv => ⟨hadv.snapshot v hv, fun _ _ => rfl⟩
    exact view?_mono hadv.id hadv.home hstay hsame hV
  refine ⟨fun w' hw' => ?_, fun j => ?_, fun j => ?_, fun j id' c hc hne => ?_⟩
  · rw [hadv.id] at hw'
    simp only [noteWrite, Function.update_self] at hw'
    rcases List.mem_append.1 hw' with hw' | hw'
    · exact hm.complete w' hw'
    · exact List.mem_singleton.1 hw' ▸ hcomplete
  · by_cases hj : j = w.kind
    · subst hj
      rw [hcache, Cache.enabled_setSlot]
      exact hm.enabled _
    · rw [hothers j hj]
      exact hm.enabled j
  · by_cases hj : j = w.kind
    · subst hj
      rw [hcache]
      refine (hm.holds _).overwrite (hm.enabled _) ?_ hown fun id' hne e? hV => hview _ id' e? (fun c hc => ?_) hV
      · unfold View
        rw [view?_of_flatten hflat, hadv.id, hlast, hself, hslot]
        rfl
      · rw [TableWrite.row?_self, if_neg]
        rintro rfl
        exact hne (hids _ _ _ _ hc hflat hcomplete)
    · rw [hothers j hj]
      exact (hm.holds j).mono fun id' e? => hview j id' e? fun c _ => TableWrite.row?_of_ne (Ne.symm hj) ..
  · rw [hadv.id, hlast] at hne
    by_cases hj : j = w.kind
    · subst hj
      rw [hcache, Cache.lookup_setSlot]
      split
      · exact Option.some_ne_none _
      · rename_i hid
        refine hm.written _ id' c hc ?_
        rw [TableWrite.row?_self, if_neg, Option.none_or] at hne
        · exact hne
        · rintro rfl
          exact hid ⟨hm.enabled _, hids _ _ _ _ hflat hc hcomplete⟩
    · rw [hothers j hj]
      refine hm.written j id' c hc ?_
      rw [TableWrite.row?_of_ne (Ne.symm hj), Option.none_or] at hne
      exact hne

end

end Chronicle

/-! ## Statements on complete identifiers -/

namespace TableOp

/-- The statement goes through the cache and names complete identifiers only. -/
def IsComplete : TableOp C → Prop
  | .find k id | .delete k id => (C k).IsComplete id
  | .findMany k ids => ∀ id ∈ ids, (C k).IsComplete id
  | .findRange _ _ | .findAll _ => True
  | .insert k e | .save k e => (C k).IsComplete ((C k).idOf ((C k).onSave e))
  | .findUncached _ _ | .postLoad _ _ | .cache _ _ => False

/-- What an answer says there is under an identifier. -/
inductive Gives : (op : TableOp C) → op.Answer → (k : κ) → (C k).Id → Option (C k).Entity → Prop
  | find (k : κ) (id : (C k).Id) (e? : Option (C k).Entity) : Gives (.find k id) e? k id e?
  | findMany (k : κ) (ids : List (C k).Id) (es : List (C k).Entity) (e : (C k).Entity) (he : e ∈ es) :
      Gives (.findMany k ids) es k ((C k).idOf e) (some e)
  | findRange (k : κ) (r : Interval X) (es : List (C k).Entity) (e : (C k).Entity) (he : e ∈ es) :
      Gives (.findRange k r) es k ((C k).idOf e) (some e)
  | findAll (k : κ) (es : List (C k).Entity) (e : (C k).Entity) (he : e ∈ es) :
      Gives (.findAll k) es k ((C k).idOf e) (some e)

/-- The statement leaves the cache to the table, and what it writes is named completely. -/
def WritesComplete : TableOp C → Prop
  | .insert k e | .save k e => (C k).IsComplete ((C k).idOf ((C k).onSave e))
  | .delete k id => (C k).IsComplete id
  | .find _ _ | .findMany _ _ | .findUncached _ _ | .findRange _ _ | .findAll _ => True
  | .postLoad _ _ | .cache _ _ => False

omit [DecidableEq κ] in
theorem IsComplete.writesComplete {op : TableOp C} (h : op.IsComplete) : op.WritesComplete := by
  cases op <;> first | exact h | trivial

omit [DecidableEq κ] in
theorem WritesComplete.write? {op : TableOp C} (h : op.WritesComplete) {w : TableWrite C} (hw : op.write? = some w) :
    Cells.isPartial w.write.cells = false := by
  rcases write?_cases hw with ⟨e, rfl | rfl, hflat, -⟩ | ⟨id, rfl, hflat, -⟩ <;> exact h _ hflat

end TableOp

/-- Load hooks keep the identifiers of entities, and distinct complete identifiers have distinct flat forms. -/
structure WellIdentified (C : κ → EntityType X) : Prop where
  keepsIds : ∀ k, Cache.KeepsIds (C k)
  tellsApart : ∀ k, (C k).TellsApart

namespace Chronicle

variable {ch : Chronicle C} {s s' : Session C}

theorem noteStatement_of_read (ch : Chronicle C) (s : Session C) {op : TableOp C} (hw : op.isWrite = false) :
    ch.noteStatement s op = ch := by
  have hnone : op.write? = none := by cases op <;> first | rfl | cases hw
  unfold noteStatement Session.accepts?
  rw [hnone]
  split
  · rename_i heq
    split at heq <;> cases heq
  · rfl

/-- **A read on an open table gives out the view.** -/
theorem Mirrors.reads (hC : WellIdentified C) (hm : ch.Mirrors s) (h : s.tx.closedBy = none → ch.Knows s)
    (hs : s.Sound) (hledger : ch.Records s) (hkeyed : ch.IsKeyed) {op : TableOp C} (hop : op.WritesComplete)
    (hw : op.isWrite = false) (hadv : Session.Advances s (op.runOpen s).2) :
    ch.Mirrors (op.runOpen s).2 ∧ ∀ a, (op.runOpen s).1 = .ok a → ∀ k id e?, op.Gives a k id e? →
      ch.View (op.runOpen s).2.tx k id e? := by
  have hholds : ∀ k, (s.tx.cache k).Holds (ch.View (op.runOpen s).2.tx k) := fun k =>
    (hm.holds k).mono fun _ _ => View.advances hadv
  have hconfirms : ∀ k, Session.ConfirmsRead (ch.View (op.runOpen s).2.tx) s (op.runOpen s).2 k :=
    fun k ho hsnapshot => hm.confirms (h ho) hs hledger hkeyed hadv.id hadv.home hsnapshot k
  cases op with
  | find k id =>
    obtain ⟨hr, hans⟩ := Session.reflects_find (hC.keepsIds k) (hC.tellsApart k) (hholds k) (hconfirms k)
    refine ⟨hm.reflects hadv hr, fun a ha k' id' e? hgives => ?_⟩
    cases hgives
    exact hans _ ha
  | findMany k ids =>
    obtain ⟨hr, hans⟩ := Session.reflects_findMany hs.storage (hC.keepsIds k) (hC.tellsApart k) (hholds k)
      (hconfirms k)
    refine ⟨hm.reflects hadv hr, fun a ha k' id' e? hgives => ?_⟩
    cases hgives with
    | findMany _ _ _ e he => exact hans _ ha e he
  | findRange k r =>
    obtain ⟨hr, hans⟩ := Session.reflects_scan hs.storage (hC.keepsIds k) (hholds k) _ _ _ (hconfirms k)
    refine ⟨hm.reflects hadv hr, fun a ha k' id' e? hgives => ?_⟩
    cases hgives with
    | findRange _ _ _ e he => exact hans _ ha e he
  | findAll k =>
    obtain ⟨hr, hans⟩ := Session.reflects_scan hs.storage (hC.keepsIds k) (hholds k) _ _ _ (hconfirms k)
    refine ⟨hm.reflects hadv hr, fun a ha k' id' e? hgives => ?_⟩
    cases hgives with
    | findAll _ _ e he => exact hans _ ha e he
  | insert k e => cases hw
  | save k e => cases hw
  | delete k id => cases hw
  | findUncached k ids =>
    refine ⟨hm.of_cache_eq hadv (Session.cache_of_caches (s.caches_findUncached k ids) hadv.options), ?_⟩
    intro a ha k' id' e? hgives
    cases hgives
  | postLoad k row => exact hop.elim
  | cache k op => exact hop.elim

/-- **A statement leaves caches that mirror the chronicle, and gives out the view.** -/
theorem Mirrors.statement_of_writes (hC : WellIdentified C) (hm : ch.Mirrors s) (h : s.tx.closedBy = none → ch.Knows s)
    (hs : s.Sound) (hledger : ch.Records s) (hkeyed : ch.IsKeyed) {op : TableOp C} (hop : op.WritesComplete) :
    (ch.noteStatement s op).Mirrors (op.run s).2 ∧ ∀ a, (op.run s).1 = .ok a → ∀ k id e?, op.Gives a k id e? →
      (ch.noteStatement s op).View (op.run s).2.tx k id e? := by
  have hopens := Session.Reads.openTable s op.kind
  have hcache := s.cache_openTable op.kind
  cases hw : op.isWrite with
  | false =>
    rw [noteStatement_of_read ch s hw]
    refine Mirrors.reads hC (hm.of_cache_eq hopens.advances hcache) (fun ho => (h (hopens.closedBy ▸ ho)).reads hopens)
      (hopens.advances.sound hs) ?_ hkeyed hop hw (op.effect_runOpen _).advances
    unfold Records
    rw [hopens.storage, hopens.home]
    exact hledger
  | true =>
    have hnogift : ∀ a k id e?, ¬ op.Gives a k id e? := by
      intro a k id e? hgives
      cases hgives <;> cases hw
    refine ⟨?_, fun a _ k id e? hgives => (hnogift a k id e? hgives).elim⟩
    have hadv := s.advances_statement op
    rcases op.overwrites_runOpen (s.openTable op.kind) hw with ⟨e, herror, hsame⟩ | ⟨⟨a, hok⟩, w, hwrite, hover⟩
    · have hnote : ch.noteStatement s op = ch := by
        unfold noteStatement Session.accepts?
        rw [show (op.run s).1 = .error e from herror]
      rw [hnote]
      exact hm.of_cache_eq hadv fun k => (hsame k).trans (hcache k)
    · have hnote : ch.noteStatement s op = ch.noteWrite s.tx.id w (s.leaves w) := by
        unfold noteStatement Session.accepts?
        rw [show (op.run s).1 = .ok a from hok]
        dsimp only
        rw [hwrite]
      rw [hnote]
      refine hm.overwrites hC.tellsApart hadv (hop.write? hwrite) ?_ _
      unfold Session.Overwrites at hover ⊢
      simp only [hcache] at hover
      exact hover

theorem Mirrors.statement (hC : WellIdentified C) (hm : ch.Mirrors s) (h : s.tx.closedBy = none → ch.Knows s)
    (hs : s.Sound) (hledger : ch.Records s) (hkeyed : ch.IsKeyed) {op : TableOp C} (hop : op.IsComplete) :
    (ch.noteStatement s op).Mirrors (op.run s).2 ∧ ∀ a, (op.run s).1 = .ok a → ∀ k id e?, op.Gives a k id e? →
      (ch.noteStatement s op).View (op.run s).2.tx k id e? :=
  hm.statement_of_writes hC h hs hledger hkeyed hop.writesComplete

end Chronicle

/-! ## The caches over a whole history -/

namespace Session

theorem caches_applyAll : ∀ (queue : List (Pending C)) (s : Session C), (s.applyAll queue).2.tx.caches = s.tx.caches
  | [], _ => rfl
  | p :: rest, s => by
    have hfirst := s.caches_apply p.action p.kind p.write
    rw [applyAll]
    generalize s.apply p.action p.kind p.write = r at hfirst
    obtain ⟨answer, s'⟩ := r
    cases answer with
    | error e => exact hfirst
    | ok u => exact (caches_applyAll rest s').trans hfirst

theorem caches_commitWrites (s : Session C) : s.commitWrites.2.tx.caches = s.tx.caches := by
  have hall := caches_applyAll s.tx.pending { s with tx := { s.tx with pending := [] } }
  unfold commitWrites
  dsimp only
  generalize ({ s with tx := { s.tx with pending := [] } } : Session C).applyAll s.tx.pending = r at hall
  obtain ⟨answer, s'⟩ := r
  cases answer with
  | error e => exact hall
  | ok u =>
    dsimp only
    split <;> exact hall

omit [DecidableEq κ] in
theorem caches_close {s : Session C} {closing : Closing} {finish : Session C → Except Error Unit × Session C}
    (h : (finish s).2.tx.caches = s.tx.caches) : (s.close closing finish).2.tx.caches = s.tx.caches := by
  unfold close
  split
  · rfl
  · dsimp only
    split
    · rfl
    · split
      · rfl
      · have hlog : ∀ r : Except Error Unit, ((finish s).2.logStatement closing.text doneText r).tx.caches =
            (finish s).2.tx.caches := fun r => by cases r <;> rfl
        exact (hlog _).trans h

theorem caches_commit (s : Session C) : s.commit.2.tx.caches = s.tx.caches := by
  unfold commit
  split
  · rfl
  · exact caches_close s.caches_commitWrites

theorem caches_rollback (s : Session C) : s.rollback.2.tx.caches = s.tx.caches := caches_close rfl

end Session

namespace Chronicle

theorem accepted_note_of_ne {ch : Chronicle C} {r : Repository C} (hr : r.Sound) {a : Action C} {id : TxId}
    (ha : a.actor? ≠ some id) : (ch.note r a).accepted id = ch.accepted id := by
  cases a with
  | statement other op =>
    unfold note
    dsimp only
    split
    · rename_i s hs
      unfold noteStatement
      split
      · have hne : id ≠ s.tx.id := by
          rw [(hr.session other s hs).1]
          rintro rfl
          exact ha rfl
        exact Function.update_of_ne hne ..
      · rfl
    · rfl
  | commit other =>
    unfold note noteCommit
    dsimp only
    split
    · split <;> rfl
    · rfl
  | loadSnapshot sid =>
    unfold note
    dsimp only
    split <;> rfl
  | _ => rfl

/-- **What was published by a version stays.** -/
theorem row_note {ch : Chronicle C} {r : Repository C} (a : Action C) {home : Nat}
    (hhome : home ≤ r.retired.length) {v : Nat} (hv : v ≤ (r.storage home).version) (k : κ) (c : Cells X) :
    ((ch.note r a).ledger home).row v k c = (ch.ledger home).row v k c := by
  cases a with
  | statement id op =>
    unfold note noteStatement
    dsimp only
    split
    · split <;> rfl
    · rfl
  | commit id =>
    unfold note noteCommit
    dsimp only
    split
    · rename_i s hs
      split
      · rename_i hlt
        by_cases he : home = s.tx.home
        · subst he
          rw [← Repository.storage_of_session? hs] at hv
          dsimp only
          rw [Function.update_self, Ledger.row, if_neg (by dsimp only; omega)]
        · dsimp only
          rw [Function.update_of_ne he]
      · rfl
    · rfl
  | loadSnapshot sid =>
    unfold note
    dsimp only
    split
    · dsimp only
      rw [Function.update_of_ne (by omega)]
    · rfl
  | _ => rfl

section

variable {ch : Chronicle C} {r : Repository C} {id : TxId}

/-- The caches of a transaction, if it has any, mirror the chronicle. -/
def MirrorsOf (ch : Chronicle C) (r : Repository C) (id : TxId) : Prop :=
  ∀ s, r.session? id = some s → s.tx.options.cache = true → ch.Mirrors s

theorem mirrors_begun (h : ch.Tells r) (options : TxOptions) (hcache : options.cache = true) :
    ch.Mirrors (r.begun options) := by
  have hnone := (h.fresh (r.begun options).tx.id (Nat.lt_succ_self _)).1
  have hempty : ∀ k, (r.begun options).tx.cache k = { enabled := true } := by
    intro k
    rw [← hcache]
    rfl
  refine ⟨fun w hw => ?_, fun k => ?_, fun k id slot hslot => ?_, fun k id c _ hne => ?_⟩
  · rw [hnone] at hw
    cases hw
  · rw [hempty k]
  · rw [hempty k] at hslot
    cases hslot
  · rw [hnone] at hne
    exact absurd rfl hne

theorem MirrorsOf.note_of_ne (hr : r.Sound) (h : ch.Tells r) (hm : ch.MirrorsOf r id) {a : Action C}
    (ha : a.actor? ≠ some id) : (ch.note r a).MirrorsOf (r.next a) id := by
  intro s' hs' hcache
  rcases Repository.tx_next_of_ne hr ha hs' with ⟨s, hs, htx⟩ | ⟨o, rfl, rfl⟩
  · obtain ⟨hsid, -, hhome, hsound⟩ := hr.session id s hs
    refine (hm s hs (htx ▸ hcache)).transfer (congrArg Transaction.id htx) (congrArg Transaction.home htx)
      (fun v hv => ⟨by rw [htx, hv], fun k c => row_note a hhome ?_ k c⟩) ?_ fun k => by rw [htx]
    · exact Repository.storage_of_session? hs ▸ hsound.snapshot v hv
    · rw [hsid]
      exact accepted_note_of_ne hr ha
  · exact mirrors_begun h o hcache

/-- What a transaction does itself keeps the mirror, as long as it writes complete identifiers only. -/
theorem MirrorsOf.note_of_actor (hC : WellIdentified C) (hr : r.Sound) (h : ch.Tells r) (hkeyed : ch.IsKeyed)
    (hm : ch.MirrorsOf r id) {a : Action C} (ha : a.actor? = some id)
    (hop : ∀ op, a = .statement id op → op.WritesComplete) : (ch.note r a).MirrorsOf (r.next a) id := by
  intro s' hs' hcache
  rcases Repository.next_cases hr a hs' with ⟨o, rfl, -⟩ | ⟨s, hs, ⟨hne, -⟩ | ⟨-, rfl⟩⟩
  · cases ha
  · exact absurd ha hne
  obtain ⟨hsid, -, hhome, hsound⟩ := hr.session id s hs
  have hadv := a.advances_turn s
  have hms := hm s hs (hadv.options ▸ hcache)
  cases a with
  | openTable other k => exact hms.of_cache_eq hadv (s.cache_openTable k)
  | statement other op =>
    cases ha
    have hnote : ch.note r (.statement id op) = ch.noteStatement s op := by
      unfold note
      dsimp only
      rw [hs]
    rw [hnote]
    refine (hms.statement_of_writes hC (h.session id s hs) hsound ?_ hkeyed (hop op rfl)).1
    unfold Records
    rw [Repository.storage_of_session? hs]
    exact h.ledger _ hhome
  | record other f => exact hms.of_cache_eq hadv fun _ => rfl
  | commit other =>
    cases ha
    refine hms.transfer hadv.id hadv.home (fun v hv => ⟨hadv.snapshot v hv, row_note _ hhome ?_⟩) ?_
      (Session.cache_of_caches s.caches_commit hadv.options)
    · exact Repository.storage_of_session? hs ▸ hsound.snapshot v hv
    · unfold note noteCommit
      dsimp only
      rw [hs]
      dsimp only
      split <;> rfl
  | rollback other => exact hms.of_cache_eq hadv (Session.cache_of_caches s.caches_rollback hadv.options)
  | release other => exact hms.of_cache_eq hadv fun k => congrArg (fun t => t.cache k) s.tx_release
  | _ => cases ha

/-- **Over any history in which a transaction writes complete identifiers only, its caches mirror the chronicle.** -/
theorem mirrorsOf_along_of_writes (hC : WellIdentified C) (id : TxId) : ∀ (as : List (Action C)) {ch : Chronicle C}
    {r : Repository C}, r.Sound → ch.Tells r → ch.IsKeyed → ch.MirrorsOf r id →
    (∀ op, .statement id op ∈ as → op.WritesComplete) →
      (ch.along r as).MirrorsOf (r.after as) id ∧ (ch.along r as).IsKeyed
  | [], _, _, _, _, hkeyed, hm, _ => ⟨hm, hkeyed⟩
  | a :: rest, ch, r, hr, h, hkeyed, hm, hops => by
    have hnext : (ch.note r a).MirrorsOf (r.next a) id := by
      by_cases ha : a.actor? = some id
      · exact hm.note_of_actor hC hr h hkeyed ha fun op he => hops op (he ▸ List.mem_cons_self)
      · exact hm.note_of_ne hr h ha
    exact mirrorsOf_along_of_writes hC id rest (Repository.sound_next hr a) (tells_note h hr a) (hkeyed.note r a) hnext
      fun op hop => hops op (List.mem_cons_of_mem a hop)

theorem mirrorsOf_along (hC : WellIdentified C) (id : TxId) (as : List (Action C)) {ch : Chronicle C}
    {r : Repository C} (hr : r.Sound) (h : ch.Tells r) (hkeyed : ch.IsKeyed) (hm : ch.MirrorsOf r id)
    (hops : ∀ op, .statement id op ∈ as → op.IsComplete) :
    (ch.along r as).MirrorsOf (r.after as) id ∧ (ch.along r as).IsKeyed :=
  mirrorsOf_along_of_writes hC id as hr h hkeyed hm fun op hop => (hops op hop).writesComplete

end

theorem mirrorsOf_empty (id : TxId) : ({} : Chronicle C).MirrorsOf {} id := by
  intro s hs
  cases hs

end Chronicle

/-- **No read gives out anything but the view.**  Whatever has been done with a repository, let a transaction with a
cache have named complete identifiers only.  What a point read answers is the view of its identifier, and each entity
of any other answer is the view of its own; so where the transaction's last write is a deletion, there is none. -/
theorem Repository.read_eq_view (hC : WellIdentified C) (as : List (Action C)) (id : TxId) (op : TableOp C)
    (hops : ∀ op', .statement id op' ∈ as ++ [.statement id op] → op'.IsComplete) (s : Session C)
    (hs : (({} : Repository C).after (as ++ [.statement id op])).session? id = some s)
    (hcache : s.tx.options.cache = true) (a : op.Answer)
    (ha : ((({} : Repository C).after as).perform (.statement id op)).1 = .ok a) (k : κ) (i : (C k).Id)
    (e? : Option (C k).Entity) (hgives : op.Gives a k i e?) :
    let ch := ({} : Chronicle C).along {} as
    ch.view? s.tx k i = some e? ∧
      ∀ c, (C k).flatten i = .ok c → lastRow? (ch.accepted id) k c = some none → e? = none := by
  intro ch
  have hr := sound_after (sound_empty (C := C)) as
  have htells := Chronicle.tells_along Chronicle.tells_empty (sound_empty (C := C)) as
  obtain ⟨hmirrors, hkeyed⟩ := Chronicle.mirrorsOf_along hC id as sound_empty Chronicle.tells_empty Chronicle.isKeyed_empty
    (Chronicle.mirrorsOf_empty id) fun op' hop' => hops op' (List.mem_append_left _ hop')
  have hop : op.IsComplete := hops op (List.mem_append_right _ List.mem_cons_self)
  have hread : op.isWrite = false := by cases hgives <;> rfl
  cases hs₀ : (({} : Repository C).after as).session? id with
  | none =>
    have hsame : (({} : Repository C).after as).next (.statement id op) = ({} : Repository C).after as :=
      snd_onSession_of_none hs₀ _
    rw [after_concat, hsame, hs₀] at hs
    cases hs
  | some s₀ =>
    obtain ⟨hsid, -, hhome, hsound⟩ := hr.session id s₀ hs₀
    have hadv := s₀.advances_statement op
    have hperform : (({} : Repository C).after as).perform (.statement id op) =
        ((op.run s₀).1, (({} : Repository C).after as).putSession (op.run s₀).2) := onSession_of_some hs₀ op.run
    rw [after_concat, next, hperform, session?_putSession_of_advances hr hs₀ hadv] at hs
    rw [hperform] at ha
    cases hs
    have hledger : ch.Records s₀ := by
      unfold Chronicle.Records
      rw [storage_of_session? hs₀]
      exact htells.ledger _ hhome
    have hview := ((hmirrors s₀ hs₀ (hadv.options ▸ hcache)).statement hC (htells.session id s₀ hs₀) hsound hledger
      hkeyed hop).2 a ha k i e? hgives
    rw [Chronicle.noteStatement_of_read ch s₀ hread] at hview
    refine ⟨hview, fun c hc hlast => ?_⟩
    unfold Chronicle.View at hview
    rw [Chronicle.view?_of_flatten hc, hadv.id, hsid, hlast] at hview
    exact (Option.some.inj hview).symm

namespace Sample

/-- Accounts alone, with hooks that leave their marks: a balance grows by ten when it is saved, by one when it is
loaded. -/
@[reducible] def marked : Unit → EntityType scalars := fun _ =>
  { Account.type "sample" with
    onLoad := fun a => { a with balance := a.balance + 1 }
    onSave := fun a => { a with balance := a.balance + 10 } }

theorem flatten_marked (id : AccountId) : (marked ()).flatten id = .ok [some (.string id.name)] := rfl

theorem isComplete_marked (id : AccountId) : (marked ()).IsComplete id := by
  intro c hc
  cases hc
  rfl

theorem wellIdentified_marked : WellIdentified marked where
  keepsIds _ _ := rfl
  tellsApart _ := by
    intro ⟨name⟩ ⟨name'⟩ c hc hc' _
    rw [flatten_marked, ← hc'] at hc
    cases hc
    rfl

/-- Two accounts are published; a transaction reads the first and deletes the second, while another one replaces
the first. -/
def marking : List (Action marked) :=
  [.start {}, .statement 1 (.save () (Account.mk ⟨"first"⟩ "" 100)),
    .statement 1 (.save () (Account.mk ⟨"second"⟩ "" 200)), .commit 1,
    .start {}, .statement 2 (.find () (AccountId.mk "first")), .statement 2 (.delete () (AccountId.mk "second")),
    .start {}, .statement 3 (.save () (Account.mk ⟨"first"⟩ "" 300)), .commit 3]

theorem isComplete_marking (id : AccountId) (op : TableOp marked)
    (hop : .statement 2 op ∈ marking ++ [.statement 2 (.find () id)]) : op.IsComplete := by
  simp only [marking, List.cons_append, List.nil_append, List.mem_cons, Action.statement.injEq, reduceCtorEq,
    List.not_mem_nil, or_false, false_or, true_and, Nat.reduceEqDiff, false_and] at hop
  rcases hop with rfl | rfl | rfl <;> exact isComplete_marked _

end Sample

open Sample in
theorem Repository.read_eq_view_marking :
    let r := ({} : Repository marked).after marking
    let ch := ({} : Chronicle marked).along {} marking
    ∃ s, (({} : Repository marked).after (marking ++ [.statement 2 (.find () ⟨"first"⟩)])).session? 2 = some s ∧
      (r.perform (.statement 2 (.find () ⟨"first"⟩))).1 = .ok (some ⟨⟨"first"⟩, "", 111⟩) ∧
      ch.view? s.tx () ⟨"first"⟩ = some (some ⟨⟨"first"⟩, "", 111⟩) := by
  intro r ch
  have hfound : (r.perform (.statement 2 (.find () ⟨"first"⟩))).1 = .ok (some ⟨⟨"first"⟩, "", 111⟩) := rfl
  obtain ⟨s, hs, hcache⟩ := (Option.any_eq_true (fun s : Session marked => s.tx.options.cache)
    ((({} : Repository marked).after (marking ++ [.statement 2 (.find () ⟨"first"⟩)])).session? 2)).1 (by decide +kernel)
  refine ⟨s, hs, hfound, ?_⟩
  exact (read_eq_view wellIdentified_marked marking 2 _ (isComplete_marking _) s hs hcache _ hfound () ⟨"first"⟩ _
    (.find () _ _)).1

end EntityStore

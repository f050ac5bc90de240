import EntityStore.Proofs.FlatForms
import EntityStore.Proofs.PointView
import Mathlib.Data.List.Induction
/-!
# The keys that rows are stored under

Every key with a line in some storage of a repository is the flat form of an identifier under which an insertion or a
save was accepted (`Repository.Admits`).  It has the width of its schema; but it may have empty cells, since insertions
and saves accept partial identifiers.  A range read looks at every row of its table, wherever the interval lies, so
that one such row is enough to make it fail: `Repository.stored_keys` says that this is the only row that does.
-/
namespace EntityStore

variable {X : Scalars} {κ : Type} [DecidableEq κ] {C : κ → EntityType X}

/-! ## Where lines come from -/

/-- The write leaves a row under a key. -/
def TableWrite.Puts (w : TableWrite C) (k : κ) (c : Cells X) : Prop := ∃ e, w.row? k c = some (some e)

namespace Storage

variable {s : Storage C}

theorem hasLine_write_cases (hs : s.Sound) (tx : TxId) (v : Nat) (w : TableWrite C) {k : κ} {c : Cells X}
    (h : (s.write tx v w.kind w.write).2.hasLine k c = true) :
    s.hasLine k c = true ∨ (s.write tx v w.kind w.write).1 = .ok () ∧ w.Puts k c := by
  obtain ⟨j, w⟩ := w
  rcases (hasLine_write hs tx v j k w c).1 h with hold | ⟨hlands, rfl, rfl⟩
  · exact .inl hold
  · have hok : (s.write tx v j w).1 = .ok () := by
      by_contra hrefused
      rw [lands_of_refused hrefused] at hlands
      cases hlands
    have hputs : ∀ e, w.change.row? = some e → (⟨j, w⟩ : TableWrite C).Puts j w.cells := by
      intro e he
      refine ⟨e, ?_⟩
      rw [TableWrite.row?_self, if_pos rfl, he]
    rw [lands_eq] at hlands
    cases hw : w.change with
    | insert e => exact .inr ⟨hok, hputs e (by rw [hw]; rfl)⟩
    | save e => exact .inr ⟨hok, hputs e (by rw [hw]; rfl)⟩
    | delete =>
      rw [hw] at hlands
      exact .inl hlands

theorem hasLine_replay_cases (tx : TxId) (v : Nat) {k : κ} {c : Cells X} : ∀ (ws : List (TableWrite C)) {s : Storage C},
    s.Sound → (s.replay tx v ws).2.hasLine k c = true → s.hasLine k c = true ∨ ∃ w ∈ ws, w.Puts k c
  | [], _, _, h => .inl h
  | w :: rest, s, hs, h => by
    have hfirst := hasLine_write_cases hs tx v w (k := k) (c := c)
    have hsound := sound_write hs tx v w.kind w.write
    have hhere : (s.write tx v w.kind w.write).2.hasLine k c = true → s.hasLine k c = true ∨ ∃ w' ∈ w :: rest, w'.Puts k c :=
      fun hline => (hfirst hline).imp_right fun hputs => ⟨w, List.mem_cons_self, hputs.2⟩
    rw [replay] at h
    generalize s.write tx v w.kind w.write = r at h hsound hhere
    obtain ⟨result, s'⟩ := r
    cases result with
    | error e => exact hhere h
    | ok u =>
      rcases hasLine_replay_cases tx v rest hsound h with hline | ⟨w', hw', hputs⟩
      · exact hhere hline
      · exact .inr ⟨w', List.mem_cons_of_mem w hw', hputs⟩

end Storage

namespace Session

variable {s : Session C}

theorem accepts?_of_ok {op : TableOp C} {a : op.Answer} (h : (op.run s).1 = .ok a) : s.accepts? op = op.write? := by
  unfold accepts?
  rw [h]

/-- The write is in the queue before a turn, or is accepted in it. -/
def Carries (s : Session C) (a : Action C) (w : TableWrite C) : Prop :=
  w ∈ s.tx.pending.map Pending.toTableWrite ∨ ∃ id op, a = .statement id op ∧ s.accepts? op = some w

theorem pending_turn (a : Action C) {w : TableWrite C} (h : w ∈ (a.turn s).tx.pending.map Pending.toTableWrite) :
    s.Carries a w := by
  have hfinishes : ∀ s' : Session C, Finishes s s' → w ∈ s'.tx.pending.map Pending.toTableWrite →
      w ∈ s.tx.pending.map Pending.toTableWrite := by
    intro s' hf hw
    rcases hf.pending with hp | hp
    · rwa [hp] at hw
    · rw [hp] at hw
      cases hw
  have hcloses : ∀ {closing finished answer} {s' : Session C}, CloseEffect s closing finished answer s' →
      w ∈ s'.tx.pending.map Pending.toTableWrite → w ∈ s.tx.pending.map Pending.toTableWrite := by
    intro closing finished answer s' he hw
    cases he with
    | refused _ _ same _ => rwa [same] at hw
    | idle _ _ _ _ hf _ => exact hfinishes s' hf hw
    | ends _ _ _ _ hf _ => exact hfinishes s' hf hw
  cases a with
  | openTable id k =>
    refine .inl ?_
    rwa [show ((Action.openTable id k).turn s).tx.pending = s.tx.pending from (Reads.openTable s k).pending] at h
  | statement id op =>
    change w ∈ (op.run s).2.tx.pending.map Pending.toTableWrite at h
    cases op.effect s with
    | reads hr _ =>
      rw [hr.pending] at h
      exact .inl h
    | queues w' hw' _ _ _ hq done =>
      obtain ⟨a, ha⟩ := done
      obtain ⟨action, hp⟩ := hq.pending
      rw [hp, List.map_append, List.mem_append] at h
      refine h.imp_right fun h => ⟨id, op, rfl, ?_⟩
      rw [accepts?_of_ok ha, hw']
      exact congrArg some (List.mem_singleton.1 h).symm
    | applies w' _ _ _ _ happ _ =>
      rw [happ.pending] at h
      exact .inl h
  | commit id =>
    refine .inl ?_
    rcases s.commit_spec with ⟨-, hc⟩ | ⟨-, hc⟩
    · rwa [show (Action.commit id).turn s = s from congrArg Prod.snd hc] at h
    · exact hcloses hc h
  | rollback id => exact .inl (hcloses s.rollback_spec h)
  | release id => exact .inl (s.tx_release ▸ h)
  | _ => exact .inl h

theorem hasLine_statement (hs : s.Sound) (op : TableOp C) {k : κ} {c : Cells X}
    (h : (op.run s).2.storage.hasLine k c = true) :
    s.storage.hasLine k c = true ∨ ∃ w, s.accepts? op = some w ∧ w.Puts k c := by
  cases op.effect s with
  | reads hr _ =>
    rw [hr.storage] at h
    exact .inl h
  | queues w _ _ _ _ hq _ =>
    rw [hq.storage] at h
    exact .inl h
  | applies w hw _ _ _ happ done =>
    rw [happ.storage] at h
    refine (Storage.hasLine_write_cases hs.storage _ _ w h).imp_right ?_
    rintro ⟨hok, hputs⟩
    rw [hok] at done
    obtain ⟨answer, ha⟩ : ∃ answer, (op.run s).1 = .ok answer := by
      cases hans : (op.run s).1 with
      | ok answer => exact ⟨answer, rfl⟩
      | error e =>
        rw [hans] at done
        cases done
    exact ⟨w, (accepts?_of_ok ha).trans hw, hputs⟩

theorem hasLine_commit (hs : s.Sound) {k : κ} {c : Cells X} (h : s.commit.2.storage.hasLine k c = true) :
    s.storage.hasLine k c = true ∨ ∃ w ∈ s.tx.pending.map Pending.toTableWrite, w.Puts k c := by
  have hreplayed : s.replayed.2.hasLine k c = true → _ := Storage.hasLine_replay_cases _ _ _ hs.storage
  have hsound := s.moves_replayed.sound hs.storage
  cases s.commit_effect with
  | refused _ _ same _ =>
    rw [same] at h
    exact .inl h
  | idle _ _ _ hst =>
    rw [hst] at h
    exact .inl h
  | failed _ _ hst _ =>
    rw [hst, Storage.hasLine_rollback hsound] at h
    exact hreplayed h
  | unwritten _ _ hst _ _ =>
    rw [hst] at h
    exact hreplayed h
  | published _ _ _ _ hst _ _ _ =>
    rw [hst, Storage.hasLine_publish hsound] at h
    exact hreplayed h

theorem hasLine_turn (hs : s.Sound) (a : Action C) {k : κ} {c : Cells X} (h : (a.turn s).storage.hasLine k c = true) :
    s.storage.hasLine k c = true ∨ ∃ w, s.Carries a w ∧ w.Puts k c := by
  have hrolled := Storage.hasLine_rollback hs.storage s.tx.id k c
  cases a with
  | openTable id k' => exact .inl ((Reads.openTable s k').storage ▸ h)
  | statement id op =>
    refine (hasLine_statement hs op h).imp_right ?_
    rintro ⟨w, hw, hputs⟩
    exact ⟨w, .inr ⟨id, op, rfl, hw⟩, hputs⟩
  | commit id =>
    refine (hasLine_commit hs h).imp_right ?_
    rintro ⟨w, hw, hputs⟩
    exact ⟨w, .inl hw, hputs⟩
  | rollback id =>
    change s.rollback.2.storage.hasLine k c = true at h
    cases s.rollback_spec with
    | refused _ _ same _ =>
      rw [same] at h
      exact .inl h
    | idle _ _ _ hst _ _ =>
      rw [hst] at h
      exact .inl h
    | ends _ _ _ hst _ _ =>
      rw [hst] at h
      exact .inl (hrolled.symm.trans h)
  | release id =>
    change s.release.storage.hasLine k c = true at h
    unfold release at h
    split at h
    · exact .inl (hrolled.symm.trans h)
    · exact .inl h
  | _ => exact .inl h

end Session

namespace Repository

/-- The action is an insertion or a save that is accepted, and leaves a row under a key. -/
def Admits (k : κ) (c : Cells X) (r : Repository C) (a : Action C) : Prop :=
  ∃ id op s w, a = .statement id op ∧ r.session? id = some s ∧ s.accepts? op = some w ∧ w.Puts k c

/-- Whatever is stored, saved or queued with a row lies under keys of a given kind. -/
structure KeysIn (N : κ → Cells X → Prop) (r : Repository C) : Prop where
  stored : ∀ home ≤ r.retired.length, ∀ k c, (r.storage home).hasLine k c = true → N k c
  saved : ∀ sid st, r.snapshots.get? sid = some st → ∀ k c, st.hasLine k c = true → N k c
  queued : ∀ id s, r.session? id = some s → ∀ w ∈ s.tx.pending.map Pending.toTableWrite, ∀ k c, w.Puts k c → N k c

variable {N N' : κ → Cells X → Prop} {r : Repository C}

theorem keysIn_empty (N : κ → Cells X → Prop) : KeysIn N ({} : Repository C) where
  stored _ _ _ _ h := by cases h
  saved _ _ h := by cases h
  queued _ _ h := by cases h

theorem KeysIn.mono (h : KeysIn N r) (hN : ∀ k c, N k c → N' k c) : KeysIn N' r :=
  ⟨fun home hle k c hc => hN k c (h.stored home hle k c hc), fun sid st hst k c hc => hN k c (h.saved sid st hst k c hc),
    fun id s hs w hw k c hp => hN k c (h.queued id s hs w hw k c hp)⟩

theorem KeysIn.next (h : KeysIn N r) (hr : r.Sound) (a : Action C) (ha : ∀ k c, Admits k c r a → N k c) :
    KeysIn N (r.next a) := by
  have hturn : ∀ {id s}, r.session? id = some s → a.actor? = some id → ∀ {w k c}, s.Carries a w → w.Puts k c → N k c := by
    intro id s hs hact w k c hw hputs
    rcases hw with hw | ⟨id', op, rfl, hw⟩
    · exact h.queued id s hs w hw k c hputs
    · cases hact
      exact ha k c ⟨id, op, s, w, rfl, hs, hw, hputs⟩
  have hstored : ∀ home ≤ r.retired.length, ∀ k c, ((r.next a).storage home).hasLine k c = true → N k c := by
    intro home hle k c hc
    rcases storage_next hr a hle with ⟨hsame, -⟩ | ⟨id, s, hact, hs, rfl, hst⟩
    · rw [hsame] at hc
      exact h.stored home hle k c hc
    · rw [hst] at hc
      rcases Session.hasLine_turn (hr.session id s hs).2.2.2 a hc with hold | ⟨w, hw, hputs⟩
      · exact h.stored _ hle k c (storage_of_session? hs ▸ hold)
      · exact hturn hs hact hw hputs
  have hqueued : ∀ id s', (r.next a).session? id = some s' → ∀ w ∈ s'.tx.pending.map Pending.toTableWrite,
      ∀ k c, w.Puts k c → N k c := by
    intro id s' hs' w hw k c hputs
    rcases next_cases hr a hs' with ⟨o, rfl, rfl⟩ | ⟨s, hs, ⟨-, htx⟩ | ⟨hact, rfl⟩⟩
    · cases hw
    · rw [htx] at hw
      exact h.queued id s hs w hw k c hputs
    · exact hturn hs hact (Session.pending_turn a hw) hputs
  -- what is left are the saved storages, and those that a load puts in place
  have he := r.effect a
  generalize r.next a = r' at hstored hqueued he
  cases he with
  | none => exact h
  | started options => exact ⟨hstored, h.saved, hqueued⟩
  | advanced id s s' _ hs hadv =>
    refine ⟨fun home hle => hstored home (retired_length_putSession r s' ▸ hle), ?_, hqueued⟩
    rw [snapshots_putSession]
    exact h.saved
  | released id s hs =>
    refine ⟨fun home hle => hstored home (retired_length_putSession r s.release ▸ hle), ?_, hqueued⟩
    show ∀ sid st, (r.putSession s.release).snapshots.get? sid = some st → _
    rw [snapshots_putSession]
    exact h.saved
  | saved new =>
    refine ⟨hstored, fun sid st hst k c hc => ?_, hqueued⟩
    have hst : (r.snapshots.insert new r.current.settled).get? sid = some st := hst
    rw [Dict.get?_insert] at hst
    split at hst
    · cases hst
      rw [Storage.hasLine_settled, ← storage_length r] at hc
      exact h.stored _ (Nat.le_refl _) k c hc
    · exact h.saved sid st hst k c hc
  | loaded sid st hst =>
    have hlen : (r.load st).retired.length = r.retired.length + 1 := by simp [load]
    refine ⟨fun home hle k c hc => ?_, h.saved, hqueued⟩
    rw [hlen] at hle
    by_cases hnew : home = r.retired.length + 1
    · rw [storage_load r st hle, if_pos hnew, Storage.hasLine_settled] at hc
      exact h.saved sid st hst k c hc
    · exact hstored home (by omega) k c hc
  | dropped sid =>
    refine ⟨hstored, fun sid' st hst => ?_, hqueued⟩
    have hst : (r.snapshots.erase sid).get? sid' = some st := hst
    rw [Dict.get?_erase] at hst
    split at hst
    · cases hst
    · exact h.saved sid' st hst

/-- **Whatever was done, every key with a line was admitted.** -/
theorem keysIn_after (as : List (Action C)) :
    KeysIn (fun k c => ({} : Repository C).Happens (Admits k c) as) (({} : Repository C).after as) := by
  induction as using List.reverseRecOn with
  | nil => exact keysIn_empty _
  | append_singleton as a ih =>
    rw [after_concat]
    refine (ih.mono fun k c hbefore => ?_).next (sound_after sound_empty as) a fun k c hnow => ?_
    · exact (happens_concat (Admits k c) a as {}).2 (.inl hbefore)
    · exact (happens_concat (Admits k c) a as {}).2 (.inr hnow)

theorem flatten_of_admits {k : κ} {c : Cells X} {a : Action C} (h : Admits k c r a) : ∃ id, (C k).flatten id = .ok c := by
  obtain ⟨id, op, s, w, -, -, hw, hputs⟩ := h
  obtain ⟨e, he⟩ := hputs
  obtain ⟨rfl, rfl⟩ := TableWrite.eq_of_row? he
  have hwrite : op.write? = some w := by
    unfold Session.accepts? at hw
    split at hw
    · exact hw
    · cases hw
  obtain ⟨j, w⟩ := w
  rw [TableWrite.row?_self, if_pos rfl] at he
  exact ⟨_, TableOp.isKeyed_of_write? hwrite e (Option.some.inj he)⟩

theorem flatten_of_happens {k : κ} {c : Cells X} {as : List (Action C)} {r : Repository C}
    (h : r.Happens (Admits k c) as) : ∃ id, (C k).flatten id = .ok c := by
  obtain ⟨a, -, r', hadmits⟩ := exists_of_happens h
  exact flatten_of_admits hadmits

end Repository

/-! ## Ranges over stored keys -/

namespace Session

variable {s : Session C} {k : κ}

omit [DecidableEq κ] in
/-- The rows of a table are picked unless one of them cannot be judged, or there are too many. -/
theorem pick_eq_unjudged_iff {t : Transaction C} {keep : Cells X → Except Error Bool} {rows : List (Cells X × (C k).Entity)}
    (h : ∀ p ∈ rows, ∀ e, keep p.1 = .error e → e = Interval.unjudged) :
    pick t k keep rows = .error Interval.unjudged ↔ ∃ p ∈ rows, keep p.1 = .error Interval.unjudged := by
  unfold pick
  cases hk : keepRows keep rows with
  | error e =>
    obtain ⟨p, hp, he⟩ := error_of_keepRows hk
    cases h p hp e he
    exact iff_of_true rfl ⟨p, hp, he⟩
  | ok kept =>
    refine iff_of_false ?_ ?_
    · unfold Transaction.checkScanSize
      cases t.options.scan with
      | none => exact nofun
      | some limits => by_cases hsize : limits.maxSize < kept.length <;> simp [hsize, StoreError.toError, Interval.unjudged]
    · rintro ⟨p, hp, he⟩
      obtain ⟨b, hb⟩ := judges_of_keepRows hk p hp
      rw [hb] at he
      cases he

theorem toError_of_conflict? {e : StoreError} (h : s.conflict? k = some e) :
    ∃ message, e.toError = .optimisticLock message := by
  unfold conflict? at h
  split at h
  · rename_i shard _ _
    split at h
    · rename_i e' he
      cases h
      unfold Shard.checkLocks at he
      split at he
      · cases he
        exact ⟨_, rfl⟩
      · split at he
        · cases he
          exact ⟨_, rfl⟩
        · cases he
    · cases h
  · cases h

/-- The conflict that a range read meets, if any. -/
def rangeConflict? (s : Session C) (k : κ) (r : Interval X) : Option StoreError :=
  (s.lockScan k (.interval r)).pin.conflict? k

theorem rangeConflict?_openTable (s : Session C) (j k : κ) (r : Interval X) :
    (s.openTable j).rangeConflict? k r = s.rangeConflict? k r := by
  unfold openTable
  split <;> rfl

/-- **A range read fails for a row that it cannot judge just if it sees one with an empty cell**, wherever that lies. -/
theorem findRange_eq_unjudged_iff (hs : s.storage.Sound) {r : Interval X}
    (hwidth : ∀ c e, s.row k c = some e → c.length = r.schema.width) :
    (s.findRange k r).1 = .error Interval.unjudged ↔
      s.tx.closedBy = none ∧ s.rangeConflict? k r = none ∧ ∃ c e, s.row k c = some e ∧ Cells.isPartial c = true := by
  have hcollect : (s.lockScan k (.interval r)).collect k r.containsCells (s.storage.shard? k) s.version =
      .error Interval.unjudged ↔ ∃ c e, s.row k c = some e ∧ Cells.isPartial c = true := by
    have hmem : ∀ c e, (c, e) ∈ s.rows k ↔ s.row k c = some e := fun c e => hs.mem_rows ..
    have hjudge : ∀ p ∈ s.rows k, ∀ e, r.containsCells p.1 = .error e ↔ Cells.isPartial p.1 = true ∧ e = Interval.unjudged :=
      fun p hp => Interval.containsCells_eq_error_iff (hwidth p.1 p.2 ((hmem p.1 p.2).1 hp))
    rw [collect_eq_pick]
    refine (pick_eq_unjudged_iff fun p hp e he => ((hjudge p hp e).1 he).2).trans ?_
    constructor
    · rintro ⟨p, hp, he⟩
      exact ⟨p.1, p.2, (hmem p.1 p.2).1 hp, ((hjudge p hp _).1 he).1⟩
    · rintro ⟨c, e, hrow, hpartial⟩
      exact ⟨(c, e), (hmem c e).2 hrow, (hjudge (c, e) ((hmem c e).2 hrow) _).2 ⟨hpartial, rfl⟩⟩
  have habsorbed : ∀ (t : Session C) (answer : Except Error (List (C k).Entity)),
      (t.absorbRows k answer).1 = .error Interval.unjudged ↔ answer = .error Interval.unjudged := by
    intro t answer
    cases answer <;> simp [absorbRows]
  unfold findRange
  rw [habsorbed]
  rcases (s.lockScan k (.interval r)).read_cases k s!"find({r.text})" (rowsText k)
    ((s.lockScan k (.interval r)).collect k r.containsCells) with
    ⟨closing, hc, he⟩ | ⟨ho, e, hconflict, he⟩ | ⟨ho, hconflict, he⟩
  · rw [he]
    refine iff_of_false (by simp [StoreError.toError, Interval.unjudged]) ?_
    rintro ⟨ho, -⟩
    rw [show s.tx.closedBy = some closing from hc] at ho
    cases ho
  · rw [he]
    obtain ⟨message, hmessage⟩ := toError_of_conflict? hconflict
    refine iff_of_false (by simp [hmessage, Interval.unjudged]) ?_
    rintro ⟨-, hnone, -⟩
    rw [show s.rangeConflict? k r = some e from hconflict] at hnone
    cases hnone
  · rw [he]
    exact hcollect.trans ⟨fun h => ⟨ho, hconflict, h⟩, fun h => h.2.2⟩

theorem hasLine_of_row {c : Cells X} {e : (C k).Entity} (h : s.row k c = some e) : s.storage.hasLine k c = true := by
  by_contra hline
  rw [Bool.not_eq_true] at hline
  unfold row at h
  rw [Storage.read_eq, Storage.draft?_of_hasLine_eq_false hline, Storage.published_of_hasLine_eq_false hline] at h
  cases h

end Session

namespace Repository

/-- A storage of a repository: the current one, one that was replaced, or one that is saved. -/
def Keeps (r : Repository C) (st : Storage C) : Prop :=
  (∃ home ≤ r.retired.length, r.storage home = st) ∨ ∃ sid, r.snapshots.get? sid = some st

theorem Sound.kept {r : Repository C} (h : r.Sound) {st : Storage C} (hst : r.Keeps st) : st.Sound := by
  rcases hst with ⟨home, hhome, rfl⟩ | ⟨sid, hsid⟩
  · exact h.storage home hhome
  · exact h.saved sid st hsid

/-- **What rows are stored under.**  Whatever has been done with a repository, every key with a line in one of its
storages has the width of its schema, and an insertion or a save under just this key was accepted; so an interval can
judge it unless that key was partial.  A range read of an open transaction that meets no conflict fails for a stored row
exactly if it sees one whose key has an empty cell, and never if no partial key was admitted. -/
theorem stored_keys (as : List (Action C)) :
    let r := ({} : Repository C).after as
    (∀ st, r.Keeps st → ∀ k c, st.hasLine k c = true → ({} : Repository C).Happens (Admits k c) as ∧
      ∃ schema, (C k).schema = .ok schema ∧ c.length = schema.width ∧ ∀ range : Interval X, range.schema = schema →
        ((∃ e, range.containsCells c = .error e) ↔ Cells.isPartial c = true)) ∧
    ∀ id s k range, r.session? id = some s → (C k).schema = .ok range.schema →
      ((r.perform (.statement id (.findRange k range))).1 = .error Interval.unjudged ↔
        s.tx.closedBy = none ∧ s.rangeConflict? k range = none ∧ ∃ c e, s.row k c = some e ∧ Cells.isPartial c = true) ∧
      ((∀ c, ({} : Repository C).Happens (Admits k c) as → Cells.isPartial c = false) →
        (r.perform (.statement id (.findRange k range))).1 ≠ .error Interval.unjudged) := by
  intro r
  have hr : r.Sound := sound_after sound_empty as
  have hkeys := keysIn_after (C := C) as
  have hadmitted : ∀ st, r.Keeps st → ∀ k c, st.hasLine k c = true → ({} : Repository C).Happens (Admits k c) as := by
    rintro st (⟨home, hle, rfl⟩ | ⟨sid, hst⟩) k c hc
    · exact hkeys.stored home hle k c hc
    · exact hkeys.saved sid st hst k c hc
  refine ⟨fun st hst k c hc => ?_, fun id s k range hs hschema => ?_⟩
  · have hhappens := hadmitted st hst k c hc
    obtain ⟨id, hid⟩ := flatten_of_happens hhappens
    obtain ⟨schema, hschema, hlength⟩ := EntityType.length_of_flatten hid
    refine ⟨hhappens, schema, hschema, hlength, fun range hrange => ?_⟩
    have hjudge := Interval.containsCells_eq_error_iff (r := range) (c := c) (by rw [hrange, hlength])
    exact ⟨fun ⟨e, he⟩ => ((hjudge e).1 he).1, fun hp => ⟨_, (hjudge _).2 ⟨hp, rfl⟩⟩⟩
  · obtain ⟨-, -, hhome, hsound⟩ := hr.session id s hs
    have hrow : ∀ c e, s.row k c = some e → ({} : Repository C).Happens (Admits k c) as := by
      intro c e he
      refine hadmitted s.storage (.inl ⟨s.tx.home, hhome, (storage_of_session? hs).symm⟩) k c ?_
      exact Session.hasLine_of_row he
    have hopens := Session.Reads.openTable s k
    have hperform : (r.perform (.statement id (.findRange k range))).1 = ((s.openTable k).findRange k range).1 :=
      congrArg Prod.fst (onSession_of_some hs (TableOp.findRange k range).run)
    -- rows that are stored have the width of the schema, so that nothing but an empty cell keeps an interval from judging
    have hiff := Session.findRange_eq_unjudged_iff (s := s.openTable k) (k := k) (hopens.storage ▸ hsound.storage)
      (r := range) fun c e he => by
        rw [hopens.row_eq] at he
        obtain ⟨id', hid'⟩ := flatten_of_happens (hrow c e he)
        obtain ⟨schema, hschema', hlength⟩ := EntityType.length_of_flatten hid'
        rw [hschema] at hschema'
        cases hschema'
        exact hlength
    rw [hopens.closedBy, Session.rangeConflict?_openTable] at hiff
    simp only [hopens.row_eq] at hiff
    rw [hperform]
    refine ⟨hiff, fun hcomplete hfails => ?_⟩
    obtain ⟨-, -, c, e, he, hpartial⟩ := hiff.1 hfails
    rw [hcomplete c (hrow c e he)] at hpartial
    cases hpartial

end Repository

namespace Sample

/-- The identifier of an item without a status. -/
def gap : ItemId := ⟨some 1, some 0, some "c", none⟩

/-- An item whose identifier has an empty field is saved and published, and a second transaction begins. -/
def gapped : List (Action (catalog "sample")) :=
  [.start {}, .statement 1 (.save .item ⟨gap, "gap"⟩), .commit 1, .start {}]

end Sample

open Sample in
theorem Repository.stored_keys_gapped :
    let r := ({} : Repository (catalog "sample")).after gapped
    ∃ range, (catalog "sample" .item).intervalUnder ⟨some 2, none, none, none⟩ = .ok range ∧
      (catalog "sample" .item).schema = .ok range.schema ∧
      (r.perform (.statement 2 (.findRange .item range))).1 = .error Interval.unjudged := by
  intro r
  obtain ⟨s, hs⟩ : ∃ s, r.session? 2 = some s := ⟨_, rfl⟩
  obtain ⟨range, hrange⟩ : ∃ range, (catalog "sample" .item).intervalUnder ⟨some 2, none, none, none⟩ = .ok range :=
    ⟨_, rfl⟩
  have hschema : (catalog "sample" .item).schema = .ok range.schema := by cases hrange; rfl
  refine ⟨range, hrange, hschema, ((stored_keys gapped).2 2 s .item range hs hschema).1.2 ⟨?_, ?_, ?_⟩⟩
  · cases hs
    rfl
  · cases hs
    rfl
  · refine ⟨[some (.integer 1), some (.integer 0), some (.string "c"), none], ⟨gap, "gap"⟩, ?_, rfl⟩
    cases hs
    rfl

open Sample in
/-- The save of a partial identifier is accepted, and from then on no range of the table can be read. -/
theorem Repository.range_read_fails_of_gap :
    let r := ({} : Repository (catalog "sample")).after gapped
    ((({} : Repository (catalog "sample")).after [.start {}]).perform (.statement 1 (.save .item ⟨gap, "gap"⟩))).1 =
        .ok ⟨gap, "gap"⟩ ∧
      r.current.hasLine .item [some (.integer 1), some (.integer 0), some (.string "c"), none] = true ∧
      ∃ range, (catalog "sample" .item).intervalUnder ⟨some 2, none, none, none⟩ = .ok range ∧
        (r.perform (.statement 2 (.findRange .item range))).1 = .error (.invalidArgument "Id fields cannot be null") :=
  ⟨rfl, rfl, _, rfl, rfl⟩

end EntityStore

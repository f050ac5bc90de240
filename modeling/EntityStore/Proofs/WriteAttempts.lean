import EntityStore.Proofs.Staleness
/-!
# Attempts to write

A write of an open transaction that may write always leaves a trace: it goes to the queue, or the storage notes that
the transaction writes to the table, before it is known whether anything comes of it (`TableOp.writes`).  So a
transaction has something to end exactly if it has tried to write, and only one that has tried can have applied a write
or have been invalidated (`Repository.tracks_after`).
-/
namespace EntityStore

variable {X : Scalars} {κ : Type} [DecidableEq κ] {C : κ → EntityType X}

/-! ## Statements that write -/

namespace Session

/-- A write that is applied is noted if the storage takes it, and invalidates nothing. -/
theorem flags_apply (s : Session C) (action : String) (k : κ) (w : Write (C k)) :
    (s.apply action k w).2.tx.hasWritten = (s.tx.hasWritten || (s.apply action k w).1.toOption.isSome) ∧
      (s.apply action k w).2.tx.invalidated = s.tx.invalidated := by
  unfold apply
  dsimp only
  generalize s.pin.storage.write s.pin.tx.id s.pin.version k w = r
  obtain ⟨result, storage⟩ := r
  cases result with
  | ok u => exact ⟨(Bool.or_true _).symm, rfl⟩
  | error e => exact ⟨(Bool.or_false _).symm, rfl⟩

/-- What a transaction notes of a write that it made. -/
structure Marks (s : Session C) (done : Bool) (s' : Session C) : Prop where
  hasWritten : s'.tx.hasWritten = (s.tx.hasWritten || (s.tx.options.isImmediate && done))
  invalidated : s'.tx.invalidated = s.tx.invalidated

variable {s : Session C}

/-- **A write of an open transaction that may write is queued or applied.** -/
theorem writeThrough_spec {α : Type} (ho : s.tx.closedBy = none) (hm : s.tx.isMutable = true) (action : String) (k : κ)
    (w : Write (C k)) (a : α) (cache : Session C → Cache (C k)) :
    (s.tx.options.isImmediate = false ∧ Queues s ⟨k, w⟩ (s.writeThrough action k w a cache).2 ∨
      s.tx.options.isImmediate = true ∧ Applies s ⟨k, w⟩ (s.writeThrough action k w a cache).2) ∧
    Marks s (s.writeThrough action k w a cache).1.toOption.isSome (s.writeThrough action k w a cache).2 := by
  have hactive := (s.tx.ensureActive_eq_ok_iff).2 ho
  have hmutable := (s.tx.ensureMutable_eq_ok_iff).2 hm
  unfold writeThrough
  cases hi : s.tx.options.isImmediate with
  | false =>
    have hwrite : s.write action k w =
        (.ok (), { s with tx := { s.tx with pending := s.tx.pending ++ [⟨action, k, w⟩] } }) := by
      simp only [write, hactive, hmutable, hi, Bool.false_eq_true, if_false]
    rw [hwrite]
    refine ⟨.inl ⟨rfl, (Queues.push s action ⟨k, w⟩).before (Notes.setCache ..)⟩, ?_, rfl⟩
    rw [hi]
    exact (Bool.or_false _).symm
  | true =>
    have hwrite : s.write action k w = s.apply action k w := by
      simp only [write, hactive, hmutable, hi, if_true]
    obtain ⟨-, happ, -⟩ := s.apply_spec action k w
    obtain ⟨hwritten, hvalid⟩ := s.flags_apply action k w
    rw [hwrite]
    generalize s.apply action k w = r at happ hwritten hvalid
    obtain ⟨result, s'⟩ := r
    cases result with
    | error e => exact ⟨.inr ⟨rfl, happ⟩, by rw [hi]; exact hwritten, hvalid⟩
    | ok u => exact ⟨.inr ⟨rfl, happ.before (Notes.setCache ..)⟩, by rw [hi]; exact hwritten, hvalid⟩

end Session

namespace TableOp

open Session

theorem writes_runOpen {op : TableOp C} {w : TableWrite C} (hw : op.write? = some w) {s : Session C}
    (ho : s.tx.closedBy = none) (hm : s.tx.isMutable = true) :
    (s.tx.options.isImmediate = false ∧ Queues s w (op.runOpen s).2 ∨
      s.tx.options.isImmediate = true ∧ Applies s w (op.runOpen s).2) ∧
    Marks s (op.runOpen s).1.toOption.isSome (op.runOpen s).2 := by
  cases op.writing (isWrite_of_write? hw) with
  | fails _ _ hnone _ => cases hnone.symm.trans hw
  | writes k w' id slot lock action a _ hw' _ _ _ hrun =>
    cases hw'.symm.trans hw
    rw [hrun]
    cases lock with
    | false => exact writeThrough_spec ho hm action k w' a (fun s => (s.tx.cache k).setSlot id slot)
    | true =>
      have hnotes := Notes.lockRow s k w'.cells
      obtain ⟨hkind, hmarks⟩ := writeThrough_spec (s := s.lockRow k w'.cells) ho hm action k w' a
        (fun s => (s.tx.cache k).setSlot id slot)
      exact ⟨hkind.imp (And.imp_right fun h => Queues.after h hnotes) (And.imp_right fun h => Applies.after h hnotes),
        hmarks.hasWritten, hmarks.invalidated⟩

/-- **A statement that writes, of an open transaction that may write, queues its write or applies it.** -/
theorem writes {op : TableOp C} {w : TableWrite C} (hw : op.write? = some w) {s : Session C}
    (ho : s.tx.closedBy = none) (hm : s.tx.isMutable = true) :
    (s.tx.options.isImmediate = false ∧ Queues s w (op.run s).2 ∨
      s.tx.options.isImmediate = true ∧ Applies s w (op.run s).2) ∧
    Marks s (op.run s).1.toOption.isSome (op.run s).2 := by
  have hnotes := Notes.openTable s op.kind
  have hreads := hnotes.reads
  obtain ⟨hkind, hmarks⟩ := writes_runOpen hw (s := s.openTable op.kind) (hreads.closedBy.trans ho)
    ((isMutable_congr hreads.options).trans hm)
  rw [hreads.options] at hkind
  refine ⟨hkind.imp (And.imp_right fun h => h.after hnotes) (And.imp_right fun h => h.after hnotes), ?_,
    hmarks.invalidated.trans (s.invalidated_openTable op.kind)⟩
  rw [← hreads.hasWritten, ← hreads.options]
  exact hmarks.hasWritten

end TableOp

/-! ## What a transaction has tried -/

/-- The transaction has something to publish or to take back: a queue, or a write that its storage has noted. -/
def Session.HasTried (s : Session C) : Prop := s.storage.touched.contains s.tx.id = true ∨ s.tx.pending ≠ []

namespace Repository

/-- An open transaction that may write makes a write, whatever comes of it. -/
def Tries (id : TxId) (r : Repository C) (a : Action C) : Prop :=
  ∃ op s w, a = .statement id op ∧ r.session? id = some s ∧ s.tx.closedBy = none ∧ s.tx.isMutable = true ∧
    op.write? = some w

/-- In a run, a transaction has tried to write. -/
def Tried (as : List (Action C)) (id : TxId) : Prop := ({} : Repository C).Happens (Tries id) as

theorem tried_concat (as : List (Action C)) (a : Action C) (id : TxId) :
    Tried (as ++ [a]) id ↔ Tried as id ∨ Tries id (({} : Repository C).after as) a := happens_concat ..

theorem not_happens_of_gone {P : Repository C → Action C → Prop} {id : TxId}
    (hP : ∀ r a, P r a → ∃ s, r.session? id = some s) : ∀ (as : List (Action C)) {r : Repository C}, r.Sound →
      r.Gone id → ¬r.Happens P as
  | [], _, _, _, h => h
  | a :: rest, r, hr, hg, h => by
    rcases h with hp | hrest
    · obtain ⟨s, hs⟩ := hP r a hp
      rw [hg.absent] at hs
      cases hs
    · exact not_happens_of_gone hP rest (sound_next hr a) (hg.next hr a) hrest

theorem contains_touched_next {r : Repository C} (h : r.Sound) {a : Action C} {id : TxId} (ha : a.actor? ≠ some id)
    {home : Nat} (hhome : home ≤ r.retired.length) :
    ((r.next a).storage home).touched.contains id = (r.storage home).touched.contains id := by
  rcases storage_next h a hhome with ⟨hsame, -⟩ | ⟨other, t, hact, ht, rfl, hstorage⟩
  · rw [hsame]
  · have hne : t.tx.id ≠ id := by
      rintro rfl
      exact ha (hact.trans (congrArg some (h.session other t ht).1.symm))
    rw [hstorage, ← storage_of_session? ht]
    exact congrArg Option.isSome ((a.advances_turn t).moves.touched_eq hne)

/-- What is known of an open transaction by what it has tried. -/
structure Tracks (tried : Prop) (s : Session C) : Prop where
  tried : tried ↔ s.HasTried
  isMutable : s.HasTried → s.tx.isMutable = true
  hasWritten : s.tx.hasWritten = true → s.HasTried
  invalidated : s.tx.invalidated = true → s.tx.hasWritten = true

theorem tracks_statement {tried : Prop} {s : Session C} (h : Tracks tried s) (ho : s.tx.closedBy = none)
    (op : TableOp C) : Tracks (tried ∨ s.tx.isMutable = true ∧ ∃ w, op.write? = some w) (op.run s).2 := by
  by_cases hwrites : s.tx.isMutable = true ∧ ∃ w, op.write? = some w
  · obtain ⟨hm, w, hw⟩ := hwrites
    obtain ⟨hkind, hmarks⟩ := TableOp.writes hw ho hm
    have htried : (op.run s).2.HasTried := by
      rcases hkind with ⟨-, hq⟩ | ⟨-, ha⟩
      · obtain ⟨action, hp⟩ := hq.pending
        exact .inr (by rw [hp]; exact List.append_ne_nil_of_right_ne_nil _ (List.cons_ne_nil _ _))
      · left
        rw [ha.storage, ha.id, Storage.contains_touched_write, decide_eq_true rfl, Bool.true_or]
    have hoptions : (op.run s).2.tx.options = s.tx.options := (s.advances_statement op).options
    refine ⟨iff_of_true (.inr ⟨hm, w, hw⟩) htried, fun _ => (Session.isMutable_congr hoptions).trans hm,
      fun _ => htried, fun hi => ?_⟩
    rw [hmarks.invalidated] at hi
    rw [hmarks.hasWritten, h.invalidated hi, Bool.true_or]
  · have hreads : Session.Reads s (op.run s).2 := by
      cases op.effect s with
      | reads hr _ => exact hr
      | queues w hw _ hm _ _ _ => exact absurd ⟨hm, w, hw⟩ hwrites
      | applies w hw _ hm _ _ _ => exact absurd ⟨hm, w, hw⟩ hwrites
    have hsame : (op.run s).2.HasTried ↔ s.HasTried := by
      unfold Session.HasTried
      rw [hreads.storage, hreads.id, hreads.pending]
    refine ⟨?_, fun ht => ?_, fun hw => ?_, fun hi => ?_⟩
    · rw [hsame, or_iff_left hwrites]
      exact h.tried
    · exact (Session.isMutable_congr hreads.options).trans (h.isMutable (hsame.1 ht))
    · exact hsame.2 (h.hasWritten (hreads.hasWritten ▸ hw))
    · rw [hreads.hasWritten]
      cases hw : s.tx.hasWritten with
      | true => rfl
      | false =>
        rw [hreads.valid hw] at hi
        rw [h.invalidated hi] at hw
        cases hw

omit [DecidableEq κ] in
theorem Tracks.congr {tried tried' : Prop} {s s' : Session C} (h : Tracks tried s) (htried : tried' ↔ tried)
    (htx : s'.tx = s.tx) (ht : s'.storage.touched.contains s.tx.id = s.storage.touched.contains s.tx.id) :
    Tracks tried' s' := by
  have hsame : s'.HasTried ↔ s.HasTried := by
    unfold Session.HasTried
    rw [htx, ht]
  refine ⟨(htried.trans h.tried).trans hsame.symm, ?_, ?_, ?_⟩
  · rw [hsame, htx]
    exact h.isMutable
  · rw [hsame, htx]
    exact h.hasWritten
  · rw [htx]
    exact h.invalidated

/-- **An open transaction has something to end exactly if it has tried to write**, and only then can it have applied a
write or have been invalidated. -/
theorem tracks_after {id : TxId} : ∀ (as : List (Action C)) (s : Session C),
    (({} : Repository C).after as).session? id = some s → s.tx.closedBy = none → Tracks (Tried as id) s := by
  refine open_induction (fun as o hid => ?_) (fun as a s s' hs hs' hne htx ih => ?_) (fun as op s hs ho ih => ?_)
    (fun as a s s' hs hother hidle ih => ?_)
  · have hr := sound_after (sound_empty (C := C)) as
    have hnot : ¬Tried as id := by
      refine not_happens_of_lt ?_ as sound_empty (Nat.lt_of_lt_of_eq (Nat.lt_succ_self _) hid)
      rintro r a ⟨_, s, _, -, hs, -⟩
      exact ⟨s, hs⟩
    have hno : ¬Tries id (({} : Repository C).after as) (.start o) := by
      rintro ⟨_, _, _, heq, -⟩
      cases heq
    have huntried : ¬((({} : Repository C).after as).begun o).HasTried := by
      rintro (ht | hp)
      · rw [hr.untouched_begun] at ht
        cases ht
      · exact hp rfl
    refine ⟨?_, fun h => absurd h huntried, nofun, nofun⟩
    rw [tried_concat]
    exact iff_of_false (not_or.2 ⟨hnot, hno⟩) huntried
  · -- the storage may have moved under the transaction, but not what it has noted of it
    have hr := sound_after (sound_empty (C := C)) as
    obtain ⟨hsid, -, hhome, -⟩ := hr.session id s hs
    refine ih.congr ?_ htx ?_
    · rw [tried_concat]
      refine or_iff_left ?_
      rintro ⟨_, _, _, rfl, -⟩
      exact hne rfl
    · rw [storage_of_session? hs', htx, storage_of_session? hs, hsid, after_concat]
      exact contains_touched_next hr hne hhome
  · have hnew := tracks_statement ih ho op
    refine ⟨?_, hnew.isMutable, hnew.hasWritten, hnew.invalidated⟩
    refine Iff.trans ?_ hnew.tried
    rw [tried_concat]
    refine or_congr_right ⟨?_, ?_⟩
    · rintro ⟨_, _, w, heq, hs₀, -, hm, hw⟩
      cases heq
      cases hs.symm.trans hs₀
      exact ⟨hm, w, hw⟩
    · rintro ⟨hm, w, hw⟩
      exact ⟨op, s, w, rfl, hs, ho, hm, hw⟩
  · have hquiet : Tried (as ++ [a]) id ↔ Tried as id := by
      rw [tried_concat]
      refine or_iff_left ?_
      rintro ⟨op, _, _, rfl, -⟩
      exact hother op rfl
    have hreads := hidle.notes.reads
    have hsame : s'.HasTried ↔ s.HasTried := by
      unfold Session.HasTried
      rw [hreads.storage, hreads.id, hreads.pending]
    refine ⟨(hquiet.trans ih.tried).trans hsame.symm, fun ht => ?_, fun hw => ?_, fun hi => ?_⟩
    · exact (Session.isMutable_congr hreads.options).trans (ih.isMutable (hsame.1 ht))
    · exact hsame.2 (ih.hasWritten (hreads.hasWritten ▸ hw))
    · exact hreads.hasWritten.trans (ih.invalidated (hidle.invalidated ▸ hi))

end Repository

end EntityStore

import EntityStore.Proofs.Closings
/-!
# What holds of a transaction throughout

`Session.Sound` is the invariant of a transaction with its storage.  Whatever a transaction does, it advances
(`Session.Advances`): it moves its storage, keeps its snapshot once that is fixed, stays closed once it is closed, and
keeps the invariant.  A transaction that is let go of leaves nothing behind in its storage (`touched_release`).
-/
namespace EntityStore

variable {X : Scalars} {κ : Type} [DecidableEq κ] {C : κ → EntityType X}

theorem Storage.contains_touched_rollback (s : Storage C) (tx : TxId) :
    (s.rollback tx).touched.contains tx = false := by
  unfold rollback Dict.contains
  rw [Dict.get?_erase, if_pos rfl]
  rfl

theorem Storage.contains_touched_publish (s : Storage C) (tx : TxId) : (s.publish tx).touched.contains tx = false := by
  unfold publish Dict.contains
  rw [Dict.get?_erase, if_pos rfl]
  rfl

theorem Storage.Sound.draft?_of_untouched {s : Storage C} (h : s.Sound) {tx : TxId} (ht : s.touched.contains tx = false)
    (k : κ) (c : Cells X) : s.draft? tx k c = none := by
  refine h.draft?_eq_none (fun hk => ?_) c
  rw [Dict.contains_of_mem_getD hk] at ht
  cases ht

namespace Session

/-- The snapshot is not ahead of the storage.  Only an open transaction that applies its writes at once has drafts, and
only one that does not has a queue. -/
structure Sound (s : Session C) : Prop where
  storage : s.storage.Sound
  snapshot : ∀ v, s.tx.snapshot = some v → v ≤ s.storage.version
  touched : s.storage.touched.contains s.tx.id = true →
    s.tx.closedBy = none ∧ s.tx.isMutable = true ∧ s.tx.options.isImmediate = true
  queued : s.tx.options.isImmediate = true → s.tx.pending = []

/-- What a transaction may do. -/
structure Advances (s s' : Session C) : Prop where
  id : s'.tx.id = s.tx.id
  home : s'.tx.home = s.tx.home
  options : s'.tx.options = s.tx.options
  moves : Storage.Moves s.tx.id s.storage s'.storage
  snapshot : ∀ v, s.tx.snapshot = some v → s'.tx.snapshot = some v
  closed : s.tx.closedBy ≠ none → s'.tx.closedBy = s.tx.closedBy
  sound : s.Sound → s'.Sound

omit [DecidableEq κ] in
theorem version_of_snapshot {s : Session C} {v : Nat} (h : s.tx.snapshot = some v) : s.version = v := by
  unfold version
  rw [h]
  rfl

theorem Sound.version_le {s : Session C} (h : s.Sound) : s.version ≤ s.storage.version := by
  unfold version
  cases hs : s.tx.snapshot with
  | none => exact Nat.le_refl _
  | some v => exact h.snapshot v hs

theorem Sound.untouched_of_delayed {s : Session C} (h : s.Sound) (hd : s.tx.options.isImmediate = false) :
    s.storage.touched.contains s.tx.id = false := by
  rw [Bool.eq_false_iff]
  intro ht
  rw [(h.touched ht).2.2] at hd
  cases hd

omit [DecidableEq κ] in
theorem isMutable_congr {t t' : Transaction C} (h : t'.options = t.options) : t'.isMutable = t.isMutable := by
  unfold Transaction.isMutable
  rw [h]

namespace Advances

variable {s s' s'' : Session C}

theorem refl (s : Session C) : Advances s s := ⟨rfl, rfl, rfl, .refl _, fun _ h => h, fun _ => rfl, fun h => h⟩

theorem trans (h : Advances s s') (h' : Advances s' s'') : Advances s s'' where
  id := h'.id.trans h.id
  home := h'.home.trans h.home
  options := h'.options.trans h.options
  moves := h.moves.trans (h.id ▸ h'.moves)
  snapshot v hv := h'.snapshot v (h.snapshot v hv)
  closed hc := by
    rw [h'.closed (by rw [h.closed hc]; exact hc), h.closed hc]
  sound hs := h'.sound (h.sound hs)

end Advances

theorem Reads.advances {s s' : Session C} (h : Reads s s') : Advances s s' where
  id := h.id
  home := h.home
  options := h.options
  moves := h.storage ▸ .refl _
  snapshot v hv := by
    rcases h.snapshot with hs | ⟨-, hs⟩
    · rw [hs, hv]
    · rw [hs, version_of_snapshot hv]
  closed _ := h.closedBy
  sound hs := by
    refine ⟨h.storage ▸ hs.storage, fun v hv => ?_, ?_, ?_⟩
    · rw [h.storage]
      rcases h.snapshot with he | ⟨-, he⟩
      · exact hs.snapshot v (he ▸ hv)
      · rw [he] at hv
        cases hv
        exact hs.version_le
    · rw [h.storage, h.id, h.closedBy, isMutable_congr h.options, h.options]
      exact hs.touched
    · rw [h.options, h.pending]
      exact hs.queued

theorem Queues.advances {s s' : Session C} {w : TableWrite C} (h : Queues s w s')
    (hd : s.tx.options.isImmediate = false) : Advances s s' where
  id := h.id
  home := h.home
  options := h.options
  moves := h.storage ▸ .refl _
  snapshot v hv := h.snapshot.trans hv
  closed _ := h.closedBy
  sound hs := by
    refine ⟨h.storage ▸ hs.storage, ?_, ?_, fun hi => ?_⟩
    · rw [h.storage, h.snapshot]
      exact hs.snapshot
    · rw [h.storage, h.id, h.closedBy, isMutable_congr h.options, h.options]
      exact hs.touched
    · rw [h.options, hd] at hi
      cases hi

theorem Applies.advances {s s' : Session C} {w : TableWrite C} (h : Applies s w s') (ho : s.tx.closedBy = none)
    (hm : s.tx.isMutable = true) (hi : s.tx.options.isImmediate = true) : Advances s s' where
  id := h.id
  home := h.home
  options := h.options
  moves := h.storage ▸ (Storage.Moves.refl _).write ..
  snapshot v hv := by rw [h.snapshot, version_of_snapshot hv]
  closed _ := h.closedBy
  sound hs := by
    refine ⟨h.storage ▸ Storage.sound_write hs.storage .., fun v hv => ?_, fun _ => ?_, fun _ => ?_⟩
    · rw [h.storage, Storage.version_write]
      rw [h.snapshot] at hv
      cases hv
      exact hs.version_le
    · rw [h.closedBy, isMutable_congr h.options, h.options]
      exact ⟨ho, hm, hi⟩
    · rw [h.pending]
      exact hs.queued hi

/-- **Every statement advances its transaction.** -/
theorem Effect.advances {op : TableOp C} {s s' : Session C} {answer : Except Error op.Answer}
    (h : Effect op s answer s') : Advances s s' := by
  cases h with
  | reads h _ => exact h.advances
  | queues w _ _ _ hd h _ => exact h.advances hd
  | applies w _ ho hm hi h _ => exact h.advances ho hm hi

theorem advances_statement (op : TableOp C) (s : Session C) : Advances s (op.run s).2 := (op.effect s).advances

theorem CloseEffect.advances {s s' : Session C} {closing : Closing} {finished : Except Error Unit × Session C}
    {answer : Except Error Unit} (h : CloseEffect s closing finished answer s')
    (hm : Storage.Moves s.tx.id s.storage finished.2.storage)
    (ht : s.Sound → finished.2.storage.touched.contains s.tx.id = false) : Advances s s' := by
  have key : Finishes s s' → s.tx.closedBy = none → s'.tx.closedBy = some closing →
      Storage.Moves s.tx.id s.storage s'.storage → (s.Sound → s'.storage.touched.contains s.tx.id = false) →
        Advances s s' := by
    intro hf ho hc hm ht
    refine ⟨hf.id, hf.home, hf.options, hm, fun v hv => ?_, fun hne => absurd ho hne, fun hs => ?_⟩
    · rcases hf.snapshot with he | he
      · rw [he, hv]
      · rw [he, version_of_snapshot hv]
    refine ⟨hm.sound hs.storage, fun v hv => Nat.le_trans ?_ hm.version_le, ?_, fun hi => ?_⟩
    · rcases hf.snapshot with he | he
      · exact hs.snapshot v (he ▸ hv)
      · rw [he] at hv
        cases hv
        exact hs.version_le
    · rw [hf.id, ht hs]
      nofun
    · rcases hf.pending with he | he
      · rw [he]
        exact hs.queued (hf.options ▸ hi)
      · exact he
  cases h with
  | refused e failed same closed => exact same ▸ .refl s
  | idle done ho him hst hf hc =>
    refine key hf ho hc (hst ▸ .refl _) fun hs => ?_
    rw [hst, Bool.eq_false_iff]
    intro ht
    rw [(hs.touched ht).2.1] at him
    cases him
  | ends same ho hmut hst hf hc => exact key hf ho hc (hst ▸ hm) (hst ▸ ht)

theorem moves_replayed (s : Session C) : Storage.Moves s.tx.id s.storage s.replayed.2 := Storage.moves_replay ..

theorem advances_commit (s : Session C) : Advances s s.commit.2 := by
  rcases s.commit_spec with ⟨-, h⟩ | ⟨-, h⟩
  · rw [h]
    exact .refl s
  · refine h.advances ?_ fun _ => ?_
    · cases s.commitWrites_spec.1 with
      | failed e _ hst _ => exact hst ▸ s.moves_replayed.rollback
      | unwritten _ hst _ _ => exact hst ▸ s.moves_replayed
      | published _ hst _ _ _ => exact hst ▸ s.moves_replayed.publish
    · cases s.commitWrites_spec.1 with
      | failed e _ hst _ => exact hst ▸ Storage.contains_touched_rollback ..
      | unwritten _ hst _ hu => exact hst ▸ hu
      | published _ hst _ _ _ => exact hst ▸ Storage.contains_touched_publish ..

theorem advances_rollback (s : Session C) : Advances s s.rollback.2 :=
  s.rollback_spec.advances (Storage.Moves.refl _).rollback fun _ => Storage.contains_touched_rollback ..

theorem moves_release (s : Session C) : Storage.Moves s.tx.id s.storage s.release.storage := by
  unfold release
  split
  · exact (Storage.Moves.refl _).rollback
  · exact .refl _

/-- **A transaction that is let go of leaves nothing behind.** -/
theorem touched_release {s : Session C} (h : s.Sound) : s.release.storage.touched.contains s.tx.id = false := by
  unfold release
  split
  · exact Storage.contains_touched_rollback ..
  · rename_i hc
    rw [Bool.eq_false_iff]
    intro ht
    rw [(h.touched ht).1] at hc
    exact hc rfl

theorem tx_release (s : Session C) : s.release.tx = s.tx := by
  unfold release
  split <;> rfl

theorem advances_release (s : Session C) : Advances s s.release where
  id := congrArg Transaction.id s.tx_release
  home := congrArg Transaction.home s.tx_release
  options := congrArg Transaction.options s.tx_release
  moves := s.moves_release
  snapshot v hv := by rw [s.tx_release, hv]
  closed _ := congrArg Transaction.closedBy s.tx_release
  sound h := by
    refine ⟨s.moves_release.sound h.storage, fun v hv => ?_, fun ht => ?_, ?_⟩
    · rw [s.tx_release] at hv
      exact Nat.le_trans (h.snapshot v hv) s.moves_release.version_le
    · rw [s.tx_release, touched_release h] at ht
      cases ht
    · rw [s.tx_release]
      exact h.queued

end Session

end EntityStore

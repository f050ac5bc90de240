import EntityStore.Proofs.Storages
/-!
# What a transaction does to its storage

All that a transaction ever does to its storage is a run of writes, rollbacks and commits of its own
(`Storage.Moves`).  Such a run keeps the storage sound, never lowers its version, and leaves alone the drafts of every
other transaction and all that a snapshot no younger than the version shows: nobody else sees a difference
(`Moves.read_eq`, `Moves.rows_eq`).
-/
namespace EntityStore.Storage

variable {X : Scalars} {κ : Type} [DecidableEq κ] {C : κ → EntityType X}

/-! ## Writes -/

@[simp] theorem shards_touch (s : Storage C) (tx : TxId) (k : κ) : (s.touch tx k).shards = s.shards := by
  unfold touch; split <;> rfl

@[simp] theorem version_touch (s : Storage C) (tx : TxId) (k : κ) : (s.touch tx k).version = s.version := by
  unfold touch; split <;> rfl

theorem get?_touched_touch (s : Storage C) (tx other : TxId) (k : κ) (h : tx ≠ other) :
    (s.touch tx k).touched.get? other = s.touched.get? other := by
  unfold touch
  split
  · rfl
  · rw [Dict.get?_insert, if_neg h]

theorem mem_writtenKinds_touch (s : Storage C) (tx other : TxId) (k j : κ) :
    j ∈ (s.touch tx k).writtenKinds other ↔ j ∈ s.writtenKinds other ∨ (tx = other ∧ k = j) := by
  unfold touch
  split
  · rename_i hc
    constructor
    · exact .inl
    · rintro (h | ⟨rfl, rfl⟩)
      · exact h
      · simpa using hc
  · unfold writtenKinds Dict.getD
    rw [Dict.get?_insert]
    by_cases ht : tx = other
    · subst ht
      simp [eq_comm]
    · simp [ht]

theorem nodup_writtenKinds_touch (s : Storage C) (tx other : TxId) (k : κ) (h : (s.writtenKinds other).Nodup) :
    ((s.touch tx k).writtenKinds other).Nodup := by
  unfold touch
  split
  · exact h
  · rename_i hc
    by_cases ht : tx = other
    · subst ht
      unfold writtenKinds Dict.getD at *
      rw [Dict.get?_insert, if_pos rfl, Option.getD_some, List.nodup_append]
      refine ⟨h, by simp, fun a ha b hb => ?_⟩
      rintro rfl
      rw [List.mem_singleton] at hb
      subst hb
      simp [ha] at hc
    · unfold writtenKinds Dict.getD at *
      rw [Dict.get?_insert, if_neg ht]
      exact h

theorem contains_touched_touch (s : Storage C) (tx : TxId) (k : κ) : (s.touch tx k).touched.contains tx = true := by
  unfold touch
  split
  · rename_i hc
    exact Dict.contains_of_mem_getD (List.contains_iff_mem.1 hc)
  · unfold Dict.contains
    rw [Dict.get?_insert, if_pos rfl]
    rfl

theorem contains_touched_write (s : Storage C) (tx other : TxId) (v : Nat) (k : κ) (w : Write (C k)) :
    (s.write tx v k w).2.touched.contains other = (decide (tx = other) || s.touched.contains other) := by
  by_cases ht : tx = other
  · subst ht
    rw [decide_eq_true rfl, Bool.true_or]
    exact contains_touched_touch ..
  · rw [decide_eq_false ht, Bool.false_or]
    exact congrArg Option.isSome (get?_touched_touch _ tx other k ht)

@[simp] theorem version_write (s : Storage C) (tx : TxId) (v : Nat) (k : κ) (w : Write (C k)) :
    (s.write tx v k w).2.version = s.version := version_touch ..

theorem shard?_write_self (s : Storage C) (tx : TxId) (v : Nat) (k : κ) (w : Write (C k)) :
    (s.write tx v k w).2.shard? k = some (w.applyTo tx v ((s.shard? k).getD {})).2 := by
  unfold write shard?
  simp

theorem shard?_write_of_ne (s : Storage C) (tx : TxId) (v : Nat) {k j : κ} (h : k ≠ j) (w : Write (C k)) :
    (s.write tx v k w).2.shard? j = s.shard? j := by
  unfold write shard?
  simp only [shards_touch]
  exact s.shards.get?_set_of_ne h _

theorem draft?_write_self {s : Storage C} (h : s.Sound) (tx other : TxId) (v : Nat) (k : κ) (w : Write (C k))
    (c : Cells X) :
    (s.write tx v k w).2.draft? other k c =
      if s.lands tx v k w = true ∧ tx = other ∧ w.cells = c then some w.change.row? else s.draft? other k c := by
  rw [draft?_eq_getD s, draft?, shard?_write_self]
  exact Write.draft?_applyTo (h.getD k) w tx other v c

theorem draft?_write_of_ne (s : Storage C) (tx other : TxId) (v : Nat) {k j : κ} (hk : k ≠ j) (w : Write (C k))
    (c : Cells X) : (s.write tx v k w).2.draft? other j c = s.draft? other j c := by
  unfold draft?
  rw [shard?_write_of_ne s tx v hk w]

theorem draft?_write_of_other {s : Storage C} (h : s.Sound) {tx other : TxId} (ht : tx ≠ other) (v : Nat) (k j : κ)
    (w : Write (C k)) (c : Cells X) : (s.write tx v k w).2.draft? other j c = s.draft? other j c := by
  by_cases hk : k = j
  · subst hk
    rw [draft?_write_self h]
    simp [ht]
  · exact draft?_write_of_ne s tx other v hk w c

theorem published_write {s : Storage C} (h : s.Sound) (tx : TxId) (v u : Nat) (k j : κ) (w : Write (C k)) (c : Cells X) :
    (s.write tx v k w).2.published u j c = s.published u j c := by
  by_cases hk : k = j
  · subst hk
    rw [published_eq_getD s, published, shard?_write_self]
    exact Write.published_applyTo (h.getD k) w tx v u c
  · unfold published
    rw [shard?_write_of_ne s tx v hk w]

theorem isStale_write {s : Storage C} (h : s.Sound) (tx : TxId) (v u : Nat) (k j : κ) (w : Write (C k)) (c : Cells X) :
    (s.write tx v k w).2.isStale u j c = s.isStale u j c := by
  by_cases hk : k = j
  · subst hk
    rw [isStale_eq_getD s, isStale, shard?_write_self]
    exact Write.isStale_applyTo (h.getD k) w tx v u c
  · unfold isStale
    rw [shard?_write_of_ne s tx v hk w]

theorem hasLine_write {s : Storage C} (h : s.Sound) (tx : TxId) (v : Nat) (k j : κ) (w : Write (C k)) (c : Cells X) :
    (s.write tx v k w).2.hasLine j c = true ↔
      s.hasLine j c = true ∨ (s.lands tx v k w = true ∧ k = j ∧ w.cells = c) := by
  by_cases hk : k = j
  · subst hk
    rw [hasLine_eq_getD s, hasLine_eq_getD, shard?_write_self, Option.getD_some, Write.hasLine_applyTo (h.getD k)]
    simp [lands]
  · unfold hasLine
    rw [shard?_write_of_ne s tx v hk w]
    simp [hk]

theorem sound_write {s : Storage C} (h : s.Sound) (tx : TxId) (v : Nat) (k : κ) (w : Write (C k)) :
    (s.write tx v k w).2.Sound where
  shard j shard hs := by
    rw [version_write]
    by_cases hk : k = j
    · subst hk
      rw [shard?_write_self] at hs
      cases hs
      exact Write.sound_applyTo (h.getD k) w tx v
    · rw [shard?_write_of_ne s tx v hk w] at hs
      exact h.shard j shard hs
  tracked other j c hd := by
    refine (mem_writtenKinds_touch _ tx other k j).2 ?_
    by_cases hk : k = j
    · subst hk
      rw [draft?_write_self h] at hd
      by_cases ht : tx = other
      · exact .inr ⟨ht, rfl⟩
      · simp only [ht, false_and, and_false, if_false] at hd
        exact .inl (h.tracked other k c hd)
    · rw [draft?_write_of_ne s tx other v hk w] at hd
      exact .inl (h.tracked other j c hd)
  nodup other := nodup_writtenKinds_touch _ tx other k (h.nodup other)

/-! ## Publication and rollback -/

/-- Publishes the drafts of a transaction as a new version. -/
def publish (s : Storage C) (tx : TxId) : Storage C where
  version := s.version + 1
  shards := onKinds (fun _ shard => shard.publish tx (s.version + 1)) s.shards (s.writtenKinds tx)
  touched := s.touched.erase tx

/-- **A commit has nothing to do, meets a conflict, or publishes.** -/
theorem commit_cases (s : Storage C) (tx : TxId) (v : Nat) (locks : Locks X κ) :
    (s.touched.contains tx = false ∧ s.commit tx v locks = .ok s) ∨
    (s.touched.contains tx = true ∧
      ∃ e, s.checkLocks v locks s.shards.keys = .error e ∧ s.commit tx v locks = .error e) ∨
    (s.touched.contains tx = true ∧ s.checkLocks v locks s.shards.keys = .ok () ∧
      s.commit tx v locks = .ok (s.publish tx)) := by
  unfold commit
  cases ht : s.touched.contains tx with
  | false => exact .inl ⟨rfl, rfl⟩
  | true =>
    cases hc : s.checkLocks v locks s.shards.keys with
    | error e => exact .inr (.inl ⟨rfl, e, rfl, rfl⟩)
    | ok u => exact .inr (.inr ⟨rfl, rfl, rfl⟩)

theorem get?_onKinds (f : (k : κ) → Shard (C k) → Shard (C k)) (k : κ) : ∀ (ks : List κ)
    (shards : KindMap κ (fun k => Shard (C k))), ks.Nodup →
      (onKinds f shards ks).get? k = if k ∈ ks then (shards.get? k).map (f k) else shards.get? k
  | [], _, _ => rfl
  | j :: rest, shards, h => by
    obtain ⟨hj, hrest⟩ := List.nodup_cons.1 h
    rw [onKinds]
    cases hs : shards.get? j with
    | none =>
      rw [get?_onKinds f k rest shards hrest]
      by_cases hk : k = j
      · subst hk
        simp [hj, hs]
      · simp [hk]
    | some shard =>
      simp only
      rw [get?_onKinds f k rest _ hrest]
      by_cases hk : k = j
      · subst hk
        simp [hj, hs]
      · rw [shards.get?_set_of_ne (Ne.symm hk)]
        simp [hk]

theorem shard?_publish {s : Storage C} (h : s.Sound) (tx : TxId) (k : κ) :
    (s.publish tx).shard? k =
      (s.shard? k).map (fun shard => if k ∈ s.writtenKinds tx then shard.publish tx (s.version + 1) else shard) := by
  refine (get?_onKinds _ k _ _ (h.nodup tx)).trans ?_
  by_cases hk : k ∈ s.writtenKinds tx <;> simp [hk, shard?]

theorem shard?_rollback {s : Storage C} (h : s.Sound) (tx : TxId) (k : κ) :
    (s.rollback tx).shard? k =
      (s.shard? k).map (fun shard => if k ∈ s.writtenKinds tx then shard.discard tx else shard) := by
  refine (get?_onKinds _ k _ _ (h.nodup tx)).trans ?_
  by_cases hk : k ∈ s.writtenKinds tx <;> simp [hk, shard?]

theorem Sound.draft?_eq_none {s : Storage C} (h : s.Sound) {tx : TxId} {k : κ} (hk : k ∉ s.writtenKinds tx)
    (c : Cells X) :
    s.draft? tx k c = none := by
  cases hd : s.draft? tx k c with
  | none => rfl
  | some row => exact absurd (h.tracked tx k c (by rw [hd]; rfl)) hk

theorem draft?_publish {s : Storage C} (h : s.Sound) (tx other : TxId) (k : κ) (c : Cells X) :
    (s.publish tx).draft? other k c = if tx = other then none else s.draft? other k c := by
  unfold draft?
  rw [shard?_publish h]
  cases hs : s.shard? k with
  | none => simp
  | some shard =>
    by_cases hk : k ∈ s.writtenKinds tx
    · simp only [hk, if_true, Option.map_some, Option.bind_some]
      exact Shard.draft?_publish (h.shard k shard hs) ..
    · have := h.draft?_eq_none hk c
      unfold draft? at this
      rw [hs] at this
      simp only [Option.bind_some] at this
      by_cases ht : tx = other
      · subst ht
        simp [hk, this]
      · simp [hk, ht]

theorem draft?_rollback {s : Storage C} (h : s.Sound) (tx other : TxId) (k : κ) (c : Cells X) :
    (s.rollback tx).draft? other k c = if tx = other then none else s.draft? other k c := by
  unfold draft?
  rw [shard?_rollback h]
  cases hs : s.shard? k with
  | none => simp
  | some shard =>
    by_cases hk : k ∈ s.writtenKinds tx
    · simp only [hk, if_true, Option.map_some, Option.bind_some]
      exact Shard.draft?_discard (h.shard k shard hs) ..
    · have := h.draft?_eq_none hk c
      unfold draft? at this
      rw [hs] at this
      simp only [Option.bind_some] at this
      by_cases ht : tx = other
      · subst ht
        simp [hk, this]
      · simp [hk, ht]

/-- **A publication shows what its transaction saw from the new version on, and nothing new before.** -/
theorem published_publish {s : Storage C} (h : s.Sound) (tx : TxId) (u : Nat) (k : κ) (c : Cells X) :
    (s.publish tx).published u k c = if s.version + 1 ≤ u then s.read tx u k c else s.published u k c := by
  cases hs : s.shard? k with
  | none => simp [published, read, shard?_publish h, hs]
  | some shard =>
    by_cases hk : k ∈ s.writtenKinds tx
    · simp only [published, read, shard?_publish h, hs, hk, if_true, Option.map_some, Option.bind_some]
      exact Shard.published_publish (h.shard k shard hs) ..
    · rw [read_eq, h.draft?_eq_none hk c]
      simp [published, shard?_publish h, hs, hk]

theorem published_rollback {s : Storage C} (h : s.Sound) (tx : TxId) (u : Nat) (k : κ) (c : Cells X) :
    (s.rollback tx).published u k c = s.published u k c := by
  unfold published
  rw [shard?_rollback h]
  cases hs : s.shard? k with
  | none => rfl
  | some shard =>
    by_cases hk : k ∈ s.writtenKinds tx
    · simp only [hk, if_true, Option.map_some, Option.bind_some]
      exact Shard.published_discard ..
    · simp [hk]

theorem isStale_rollback {s : Storage C} (h : s.Sound) (tx : TxId) (u : Nat) (k : κ) (c : Cells X) :
    (s.rollback tx).isStale u k c = s.isStale u k c := by
  unfold isStale
  rw [shard?_rollback h]
  cases hs : s.shard? k with
  | none => rfl
  | some shard =>
    by_cases hk : k ∈ s.writtenKinds tx
    · simp only [hk, if_true, Option.map_some, Option.any_some]
      exact Shard.isStale_discard ..
    · simp [hk]

theorem hasLine_publish {s : Storage C} (h : s.Sound) (tx : TxId) (k : κ) (c : Cells X) :
    (s.publish tx).hasLine k c = s.hasLine k c := by
  unfold hasLine
  rw [shard?_publish h]
  cases s.shard? k with
  | none => rfl
  | some shard =>
    by_cases hk : k ∈ s.writtenKinds tx
    · simp only [hk, if_true, Option.map_some, Option.any_some]
      exact Shard.hasLine_finish ..
    · simp [hk]

theorem hasLine_rollback {s : Storage C} (h : s.Sound) (tx : TxId) (k : κ) (c : Cells X) :
    (s.rollback tx).hasLine k c = s.hasLine k c := by
  unfold hasLine
  rw [shard?_rollback h]
  cases s.shard? k with
  | none => rfl
  | some shard =>
    by_cases hk : k ∈ s.writtenKinds tx
    · simp only [hk, if_true, Option.map_some, Option.any_some]
      exact Shard.hasLine_finish ..
    · simp [hk]

theorem isStale_publish {s : Storage C} (h : s.Sound) (tx : TxId) (u : Nat) (k : κ) (c : Cells X) :
    (s.publish tx).isStale u k c =
      if (s.draft? tx k c).isSome then decide (u < s.version + 1) else s.isStale u k c := by
  unfold isStale
  rw [shard?_publish h]
  cases hs : s.shard? k with
  | none => simp [draft?, hs]
  | some shard =>
    by_cases hk : k ∈ s.writtenKinds tx
    · simp only [draft?, hs, hk, if_true, Option.map_some, Option.any_some, Option.bind_some]
      exact Shard.isStale_publish (h.shard k shard hs) ..
    · rw [h.draft?_eq_none hk c]
      simp [hk]

omit [DecidableEq κ] in
theorem writtenKinds_erase (s : Storage C) (tx other : TxId) :
    (s.touched.erase tx).getD other [] = if tx = other then [] else s.writtenKinds other := by
  unfold writtenKinds Dict.getD
  rw [Dict.get?_erase]
  by_cases ht : tx = other <;> simp [ht]

theorem sound_publish {s : Storage C} (h : s.Sound) (tx : TxId) : (s.publish tx).Sound where
  shard k shard hs := by
    rw [shard?_publish h] at hs
    obtain ⟨old, ho, rfl⟩ := Option.map_eq_some_iff.1 hs
    have := h.shard k old ho
    by_cases hk : k ∈ s.writtenKinds tx
    · simp only [hk, if_true]
      exact Shard.sound_publish this tx
    · simp only [hk, if_false]
      exact this.mono (Nat.le_succ _)
  tracked other k c hd := by
    rw [draft?_publish h] at hd
    unfold writtenKinds publish
    rw [writtenKinds_erase]
    by_cases ht : tx = other
    · simp [ht] at hd
    · rw [if_neg ht] at hd ⊢
      exact h.tracked other k c hd
  nodup other := by
    unfold writtenKinds publish
    rw [writtenKinds_erase]
    split
    · exact List.nodup_nil
    · exact h.nodup other

theorem sound_rollback {s : Storage C} (h : s.Sound) (tx : TxId) : (s.rollback tx).Sound where
  shard k shard hs := by
    rw [shard?_rollback h] at hs
    obtain ⟨old, ho, rfl⟩ := Option.map_eq_some_iff.1 hs
    have := h.shard k old ho
    by_cases hk : k ∈ s.writtenKinds tx
    · simp only [hk, if_true]
      exact Shard.sound_discard this tx
    · simp only [hk, if_false]
      exact this
  tracked other k c hd := by
    rw [draft?_rollback h] at hd
    unfold writtenKinds rollback
    rw [writtenKinds_erase]
    by_cases ht : tx = other
    · simp [ht] at hd
    · rw [if_neg ht] at hd ⊢
      exact h.tracked other k c hd
  nodup other := by
    unfold writtenKinds rollback
    rw [writtenKinds_erase]
    split
    · exact List.nodup_nil
    · exact h.nodup other

/-! ## Runs of one transaction -/

/-- What a transaction makes of its storage: any run of writes, rollbacks and commits of its own. -/
inductive Moves (tx : TxId) : Storage C → Storage C → Prop
  | refl (s : Storage C) : Moves tx s s
  | write {s s' : Storage C} (h : Moves tx s s') (v : Nat) (k : κ) (w : Write (C k)) : Moves tx s (s'.write tx v k w).2
  | rollback {s s' : Storage C} (h : Moves tx s s') : Moves tx s (s'.rollback tx)
  | publish {s s' : Storage C} (h : Moves tx s s') : Moves tx s (s'.publish tx)

namespace Moves

variable {tx : TxId} {s s' s'' : Storage C}

theorem trans (h : Moves tx s s') (h' : Moves tx s' s'') : Moves tx s s'' := by
  induction h' with
  | refl => exact h
  | write _ v k w ih => exact ih.write v k w
  | rollback _ ih => exact ih.rollback
  | publish _ ih => exact ih.publish

theorem sound (h : Moves tx s s') (hs : s.Sound) : s'.Sound := by
  induction h with
  | refl => exact hs
  | write _ v k w ih => exact sound_write ih tx v k w
  | rollback _ ih => exact sound_rollback ih tx
  | publish _ ih => exact sound_publish ih tx

theorem version_le (h : Moves tx s s') : s.version ≤ s'.version := by
  induction h with
  | refl => exact Nat.le_refl _
  | write _ v k w ih => rw [version_write]; exact ih
  | rollback _ ih => exact ih
  | publish _ ih => exact Nat.le_succ_of_le ih

/-- **A transaction leaves the drafts of the others alone.** -/
theorem draft?_eq (h : Moves tx s s') (hs : s.Sound) {other : TxId} (ht : tx ≠ other) (k : κ) (c : Cells X) :
    s'.draft? other k c = s.draft? other k c := by
  induction h with
  | refl => rfl
  | write h v j w ih => rw [draft?_write_of_other (h.sound hs) ht, ih]
  | rollback h ih => rw [draft?_rollback (h.sound hs), if_neg ht, ih]
  | publish h ih => rw [draft?_publish (h.sound hs), if_neg ht, ih]

/-- **A transaction leaves all that snapshots show alone.** -/
theorem published_eq (h : Moves tx s s') (hs : s.Sound) {v : Nat} (hv : v ≤ s.version) (k : κ) (c : Cells X) :
    s'.published v k c = s.published v k c := by
  induction h with
  | refl => rfl
  | write h u j w ih => rw [published_write (h.sound hs), ih]
  | rollback h ih => rw [published_rollback (h.sound hs), ih]
  | publish h ih =>
    have := h.version_le
    rw [published_publish (h.sound hs), if_neg (by omega), ih]

/-- **A transaction leaves what others have noted of their writes alone.** -/
theorem touched_eq (h : Moves tx s s') {other : TxId} (ht : tx ≠ other) :
    s'.touched.get? other = s.touched.get? other := by
  induction h with
  | refl => rfl
  | write _ v k w ih => exact (get?_touched_touch _ tx other k ht).trans ih
  | rollback _ ih =>
    refine (Dict.get?_erase ..).trans ?_
    rw [if_neg ht, ih]
  | publish _ ih =>
    refine (Dict.get?_erase ..).trans ?_
    rw [if_neg ht, ih]

theorem published_eq_of_version (h : Moves tx s s') (hs : s.Sound) (hv : s'.version = s.version) (v : Nat) (k : κ)
    (c : Cells X) : s'.published v k c = s.published v k c := by
  rcases Nat.le_total v s.version with hle | hle
  · exact h.published_eq hs hle k c
  · rw [(h.sound hs).published_of_le (hv ▸ hle), hv, hs.published_of_le hle]
    exact h.published_eq hs (Nat.le_refl _) k c

/-- **What a transaction has not published makes nothing stale.** -/
theorem isStale_eq (h : Moves tx s s') (hs : s.Sound) (hv : s'.version = s.version) (v : Nat) (k : κ) (c : Cells X) :
    s'.isStale v k c = s.isStale v k c := by
  induction h with
  | refl => rfl
  | write h u j w ih =>
    rw [version_write] at hv
    rw [isStale_write (h.sound hs), ih hv]
  | rollback h ih => rw [isStale_rollback (h.sound hs), ih hv]
  | publish h =>
    have hle := h.version_le
    have hlt : _ + 1 = s.version := hv
    omega

/-- **Lines stay.** -/
theorem hasLine_of_hasLine (h : Moves tx s s') (hs : s.Sound) {k : κ} {c : Cells X} (hl : s.hasLine k c = true) :
    s'.hasLine k c = true := by
  induction h with
  | refl => exact hl
  | write h u j w ih => exact (hasLine_write (h.sound hs) tx u j k w c).2 (.inl ih)
  | rollback h ih => rw [hasLine_rollback (h.sound hs), ih]
  | publish h ih => rw [hasLine_publish (h.sound hs), ih]

theorem read_eq (h : Moves tx s s') (hs : s.Sound) {other : TxId} (ht : tx ≠ other) {v : Nat} (hv : v ≤ s.version)
    (k : κ) (c : Cells X) : s'.read other v k c = s.read other v k c := by
  rw [Storage.read_eq, Storage.read_eq, h.draft?_eq hs ht, h.published_eq hs hv]

end Moves

/-! ## Rows -/

theorem Sound.ascending_rows {s : Storage C} (h : s.Sound) (tx : TxId) (v : Nat) (k : κ) :
    Ascending (s.rows tx v k) := by
  unfold rows
  cases hs : s.shard? k with
  | none => exact Ascending.nil
  | some shard => exact Shard.ascending_rows (h.shard k shard hs) tx v

theorem Sound.mem_rows {s : Storage C} (h : s.Sound) (tx : TxId) (v : Nat) (k : κ) (c : Cells X) (row : (C k).Entity) :
    (c, row) ∈ s.rows tx v k ↔ s.read tx v k c = some row := by
  unfold rows read
  cases hs : s.shard? k with
  | none => simp
  | some shard => exact Shard.mem_rows (h.shard k shard hs) tx v c row

/-- Two transactions that see the same under every key see the same rows in the same order. -/
theorem rows_eq_of_read_eq {s s' : Storage C} (h : s.Sound) (h' : s'.Sound) {tx tx' : TxId} {v v' : Nat} {k : κ}
    (hr : ∀ c, s'.read tx' v' k c = s.read tx v k c) : s'.rows tx' v' k = s.rows tx v k := by
  refine Ascending.ext (h'.ascending_rows tx' v' k) (h.ascending_rows tx v k) fun p => ?_
  obtain ⟨c, row⟩ := p
  rw [h.mem_rows, h'.mem_rows, hr]

theorem Moves.rows_eq {tx : TxId} {s s' : Storage C} (h : Moves tx s s') (hs : s.Sound) {other : TxId} (ht : tx ≠ other)
    {v : Nat} (hv : v ≤ s.version) (k : κ) : s'.rows other v k = s.rows other v k :=
  rows_eq_of_read_eq hs (h.sound hs) fun c => h.read_eq hs ht hv k c

/-! ## The settled storage -/

theorem shard?_settled (s : Storage C) (k : κ) : s.settled.shard? k = (s.shard? k).map Shard.settled :=
  KindMap.get?_map ..

theorem draft?_settled (s : Storage C) (tx : TxId) (k : κ) (c : Cells X) : s.settled.draft? tx k c = none := by
  unfold draft?
  rw [shard?_settled]
  cases s.shard? k with
  | none => rfl
  | some shard => exact shard.draft?_settled tx c

theorem published_settled (s : Storage C) (v : Nat) (k : κ) (c : Cells X) :
    s.settled.published v k c = s.published v k c := by
  unfold published
  rw [shard?_settled]
  cases s.shard? k with
  | none => rfl
  | some shard => exact shard.published_settled v c

theorem isStale_settled (s : Storage C) (v : Nat) (k : κ) (c : Cells X) :
    s.settled.isStale v k c = s.isStale v k c := by
  unfold isStale
  rw [shard?_settled]
  cases s.shard? k with
  | none => rfl
  | some shard => exact shard.isStale_settled v c

theorem hasLine_settled (s : Storage C) (k : κ) (c : Cells X) : s.settled.hasLine k c = s.hasLine k c := by
  unfold hasLine
  rw [shard?_settled]
  cases s.shard? k with
  | none => rfl
  | some shard => exact shard.hasLine_settled c

theorem sound_settled {s : Storage C} (h : s.Sound) : s.settled.Sound where
  shard k shard hs := by
    rw [shard?_settled] at hs
    obtain ⟨old, ho, rfl⟩ := Option.map_eq_some_iff.1 hs
    exact Shard.sound_settled (h.shard k old ho)
  tracked tx k c hd := by
    rw [draft?_settled] at hd
    cases hd
  nodup _ := List.nodup_nil

end EntityStore.Storage

import EntityStore.Proofs.Closed
import EntityStore.Proofs.Snapshots
import EntityStore.Proofs.StoredKeys
/-!
# Where unpublished writes are noted

An unpublished write stands in its line and is noted twice: the shard has its key, and the storage its table, both by
transaction.  A publication or a rollback goes by the notes alone, so that a write without one would stay behind.
`Storage.Consistent` says that lines and notes agree, `Storage.Clear` that a transaction has left nothing in any of the
three places.  `Repository.drafts_tracked` has both for every storage of a repository, whatever has been done with it.

That a shard has no notes of which its storage knows nothing (`Storage.Tracks`) is kept by every write, publication and
rollback.  With it a transaction that the storage has no tables for is gone altogether (`Storage.clear_of_untouched`).
-/
namespace EntityStore

variable {X : Scalars}

/-! ## The notes of a shard -/

namespace Shard

variable {E : EntityType X}

theorem touched_touch {s : Shard E} {tx other : TxId} {c : Cells X} (h : (s.touch tx c).touched.contains other = true) :
    tx = other ∨ s.touched.contains other = true := by
  unfold touch at h
  split at h
  · exact .inr h
  · unfold Dict.contains at h ⊢
    rw [Dict.get?_insert] at h
    split at h
    · exact .inl ‹_›
    · exact .inr h

theorem touched_put {s : Shard E} {tx other : TxId} {c : Cells X} {row : E.Entity}
    (h : (s.put tx c row).touched.contains other = true) : tx = other ∨ s.touched.contains other = true := by
  unfold put at h
  exact (touched_touch h :)

theorem touched_delete {s : Shard E} {tx other : TxId} {c : Cells X}
    (h : (s.delete tx c).touched.contains other = true) : tx = other ∨ s.touched.contains other = true := by
  unfold delete at h
  split at h
  · exact .inr h
  · exact (touched_touch h :)

theorem touched_finish (s : Shard E) (tx other : TxId) (f : Line E.Entity → Line E.Entity) :
    (s.finish tx f).touched.contains other = if tx = other then false else s.touched.contains other :=
  Dict.contains_erase ..

end Shard

theorem Write.touched_applyTo {E : EntityType X} {w : Write E} {tx other : TxId} {v : Nat} {shard : Shard E}
    (h : (w.applyTo tx v shard).2.touched.contains other = true) :
    tx = other ∨ shard.touched.contains other = true := by
  unfold applyTo at h
  cases hw : w.change with
  | insert e =>
    rw [hw] at h
    dsimp only at h
    split at h
    · exact .inr h
    · exact Shard.touched_put h
  | save e =>
    rw [hw] at h
    exact Shard.touched_put h
  | delete =>
    rw [hw] at h
    exact Shard.touched_delete h

variable {κ : Type} [DecidableEq κ] {C : κ → EntityType X}

namespace Storage

/-! ## The notes of a storage -/

/-- A storage knows the tables in whose shards something is noted. -/
def Tracks (s : Storage C) : Prop :=
  ∀ k shard, s.shard? k = some shard → ∀ tx, shard.touched.contains tx = true → k ∈ s.writtenKinds tx

variable {s s' : Storage C} {tx : TxId}

theorem tracks_settled (s : Storage C) : s.settled.Tracks := by
  intro k shard hshard tx h
  rw [shard?_settled] at hshard
  obtain ⟨old, -, rfl⟩ := Option.map_eq_some_iff.1 hshard
  cases h

theorem tracks_write (h : s.Tracks) (tx : TxId) (v : Nat) (k : κ) (w : Write (C k)) : (s.write tx v k w).2.Tracks := by
  intro j shard hshard other hother
  refine (mem_writtenKinds_touch _ tx other k j).2 ?_
  by_cases hk : k = j
  · subst hk
    rw [shard?_write_self] at hshard
    cases hshard
    rcases Write.touched_applyTo hother with rfl | hbefore
    · exact .inr ⟨rfl, rfl⟩
    · cases hs : s.shard? k with
      | none =>
        rw [hs] at hbefore
        cases hbefore
      | some old =>
        rw [hs] at hbefore
        exact .inl (h k old hs other hbefore)
  · rw [shard?_write_of_ne s tx v hk w] at hshard
    exact .inl (h j shard hshard other hother)

theorem Tracks.finish (h : s.Tracks) {f : ∀ k, Line (C k).Entity → Line (C k).Entity}
    (hshards : ∀ k, s'.shard? k =
      (s.shard? k).map fun shard => if k ∈ s.writtenKinds tx then shard.finish tx (f k) else shard)
    (htouched : s'.touched = s.touched.erase tx) : s'.Tracks := by
  intro k shard hshard other hother
  rw [hshards] at hshard
  obtain ⟨old, hold, rfl⟩ := Option.map_eq_some_iff.1 hshard
  unfold writtenKinds
  rw [htouched, writtenKinds_erase]
  by_cases hk : k ∈ s.writtenKinds tx
  · rw [if_pos hk, Shard.touched_finish] at hother
    split at hother
    · cases hother
    · rename_i hne
      rw [if_neg hne]
      exact h k old hold other hother
  · -- this shard is left as it was, so that it had noted nothing of the one that is forgotten
    rw [if_neg hk] at hother
    have hbefore := h k old hold other hother
    rw [if_neg]
    · exact hbefore
    · rintro rfl
      exact hk hbefore

/-- **Whatever a transaction does, no shard comes to have notes that its storage knows nothing of.** -/
theorem Moves.tracks (h : Moves tx s s') (hs : s.Sound) (ht : s.Tracks) : s'.Tracks := by
  induction h with
  | refl => exact ht
  | write _ v k w ih => exact tracks_write ih tx v k w
  | rollback h ih => exact ih.finish (shard?_rollback (h.sound hs) tx) rfl
  | publish h ih => exact ih.finish (shard?_publish (h.sound hs) tx) rfl

/-! ## What the notes say -/

/-- Lines have their versions in order, up to that of the storage, and their drafts where these are noted. -/
structure Consistent (s : Storage C) : Prop where
  /-- Versions increase, from the oldest on. -/
  increasing : ∀ k shard, s.shard? k = some shard → ∀ c line, (c, line) ∈ shard.lines →
    line.versions.reverse.Pairwise fun p q => p.1 < q.1
  bounded : ∀ k shard, s.shard? k = some shard → ∀ c line, (c, line) ∈ shard.lines →
    ∀ p ∈ line.versions, p.1 ≤ s.version
  /-- A line has a draft of a transaction just if the shard has noted its key for it. -/
  drafted : ∀ k shard, s.shard? k = some shard → ∀ c line, (c, line) ∈ shard.lines →
    ∀ tx, line.drafts.contains tx = true ↔ c ∈ shard.draftKeys tx
  /-- Keys are noted of lines that exist. -/
  present : ∀ k shard, s.shard? k = some shard → ∀ tx, ∀ c ∈ shard.draftKeys tx, ∃ line, (c, line) ∈ shard.lines
  /-- Where a shard has noted something for a transaction, the storage has noted its table. -/
  tracked : s.Tracks

theorem Consistent.of_sound (h : s.Sound) (ht : s.Tracks) : s.Consistent := by
  have hline : ∀ {k shard}, s.shard? k = some shard → ∀ {c line}, (c, line) ∈ shard.lines →
      shard.line? c = some line :=
    fun hshard _ _ hmem => (Shard.mem_iff_findLine (h.shard _ _ hshard).ascending).1 hmem
  refine ⟨fun k shard hshard c line hmem => ?_, fun k shard hshard c line hmem => ?_,
    fun k shard hshard c line hmem tx => ?_, fun k shard hshard tx c hc => ?_, ht⟩
  · exact List.pairwise_reverse.2 ((h.shard k shard hshard).ordered c line (hline hshard hmem)).descending
  · exact ((h.shard k shard hshard).ordered c line (hline hshard hmem)).bounded
  · rw [← (h.shard k shard hshard).drafted tx c]
    unfold Shard.draft?
    rw [hline hshard hmem]
    rfl
  · have hdraft := ((h.shard k shard hshard).drafted tx c).2 hc
    unfold Shard.draft? at hdraft
    cases hfound : shard.line? c with
    | none =>
      rw [hfound] at hdraft
      cases hdraft
    | some line => exact ⟨line, Shard.mem_of_findLine hfound⟩

/-- A transaction has nothing unpublished in a storage, and nothing is noted of it. -/
structure Clear (s : Storage C) (tx : TxId) : Prop where
  storage : s.touched.contains tx = false
  shards : ∀ k shard, s.shard? k = some shard → shard.touched.contains tx = false
  lines : ∀ k shard, s.shard? k = some shard → ∀ c line, (c, line) ∈ shard.lines → line.drafts.contains tx = false

/-- **What the storage has no tables for is nowhere.** -/
theorem clear_of_untouched (h : s.Sound) (ht : s.Tracks) (huntouched : s.touched.contains tx = false) : s.Clear tx := by
  have hshards : ∀ k shard, s.shard? k = some shard → shard.touched.contains tx = false := by
    intro k shard hshard
    refine Bool.eq_false_iff.2 fun hnoted => ?_
    rw [Dict.contains_of_mem_getD (ht k shard hshard tx hnoted)] at huntouched
    cases huntouched
  refine ⟨huntouched, hshards, fun k shard hshard c line hmem => Bool.eq_false_iff.2 fun hdraft => ?_⟩
  have hkey := ((Consistent.of_sound h ht).drafted k shard hshard c line hmem tx).1 hdraft
  have hnone := hshards k shard hshard
  rw [Dict.contains_of_mem_getD hkey] at hnone
  cases hnone

end Storage

/-! ## The storages of a repository -/

namespace Repository

variable {r : Repository C} {id : TxId}

theorem settled_of_new {a : Action C} {home : Nat} (hnew : r.retired.length < home)
    (hhome : home ≤ (r.next a).retired.length) : ∃ st : Storage C, (r.next a).storage home = st.settled := by
  have he := r.effect a
  generalize r.next a = r' at hhome he
  cases he with
  | loaded sid st hst =>
    have hlen : (r.load st).retired.length = r.retired.length + 1 := by simp [load]
    have hlast : home = r.retired.length + 1 := by omega
    exact ⟨st, by rw [storage_load r st (Nat.le_of_eq hlast), if_pos hlast]⟩
  | advanced id s s' _ _ _ => exact absurd (retired_length_putSession r s' ▸ hhome) (Nat.not_le_of_lt hnew)
  | released id s _ => exact absurd (retired_length_putSession r s.release ▸ hhome) (Nat.not_le_of_lt hnew)
  | _ => exact absurd hhome (Nat.not_le_of_lt hnew)

theorem settled_of_saved {as : List (Action C)} {sid : X.uuid} {st : Storage C}
    (h : (({} : Repository C).after as).snapshots.get? sid = some st) : ∃ st₀ : Storage C, st = st₀.settled := by
  obtain ⟨r, -, hst⟩ := exists_saved_of_get?_snapshots as h
  exact ⟨r.current, hst⟩

theorem tracks_storage (as : List (Action C)) : ∀ home ≤ (({} : Repository C).after as).retired.length,
    ((({} : Repository C).after as).storage home).Tracks := by
  induction as using List.reverseRecOn with
  | nil =>
    intro home _ k shard hshard
    cases hshard
  | append_singleton as a ih =>
    intro home hhome
    have hr := sound_after (sound_empty (C := C)) as
    rw [after_concat] at hhome ⊢
    by_cases hold : home ≤ (({} : Repository C).after as).retired.length
    · rcases storage_next hr a hold with ⟨hsame, -⟩ | ⟨id, s, -, hs, rfl, hturn⟩
      · rw [hsame]
        exact ih home hold
      · obtain ⟨-, -, -, hsound⟩ := hr.session id s hs
        rw [hturn]
        exact (a.advances_turn s).moves.tracks hsound.storage (storage_of_session? hs ▸ ih s.tx.home hold)
    · -- a load has put it in place
      obtain ⟨st, hst⟩ := settled_of_new (Nat.lt_of_not_le hold) hhome
      rw [hst]
      exact st.tracks_settled

/-- **No shard of a repository has notes that its storage knows nothing of.** -/
theorem tracks_kept {as : List (Action C)} {st : Storage C} (h : (({} : Repository C).after as).Keeps st) :
    st.Tracks := by
  rcases h with ⟨home, hhome, rfl⟩ | ⟨sid, hsid⟩
  · exact tracks_storage as home hhome
  · obtain ⟨st₀, rfl⟩ := settled_of_saved hsid
    exact st₀.tracks_settled

theorem untouched_kept {as : List (Action C)} {st : Storage C} (h : (({} : Repository C).after as).Keeps st)
    (hclosed : ∀ s, (({} : Repository C).after as).session? id = some s → s.tx.closedBy ≠ none) :
    st.touched.contains id = false := by
  rcases h with ⟨home, hhome, rfl⟩ | ⟨sid, hsid⟩
  · exact (sound_after sound_empty as).untouched_of_closed hhome hclosed
  · obtain ⟨st₀, rfl⟩ := settled_of_saved hsid
    rfl

/-! ## Transactions that are over -/

/-- The action ends a transaction: it lets go of it, takes it back or commits it, whatever that comes to.  The commit of
an invalidated transaction leaves it open. -/
def Ends (id : TxId) (r : Repository C) (a : Action C) : Prop :=
  ∃ s, r.session? id = some s ∧ (a = .release id ∨ a = .rollback id ∨ a = .commit id ∧ s.tx.invalidated = false)

theorem shut_of_ends (hr : r.Sound) {a : Action C} (h : Ends id r a) : (r.next a).Shut id := by
  obtain ⟨s, hs, hreleased | hclosed⟩ := h
  · exact shut_of_ended hr (hr.session id s hs).2.1 (.inr hreleased)
  · exact shut_of_closing hr hs hclosed

theorem shut_of_happens (as : List (Action C)) (h : ({} : Repository C).Happens (Ends id) as) :
    (({} : Repository C).after as).Shut id := by
  induction as using List.reverseRecOn with
  | nil => exact h.elim
  | append_singleton as a ih =>
    have hr := sound_after (sound_empty (C := C)) as
    rw [after_concat]
    rcases (happens_concat (Ends id) a as {}).1 h with hbefore | hnow
    · exact (ih hbefore).next hr a
    · exact shut_of_ends hr hnow

/-- **Unpublished writes are where they are noted, and of open transactions alone.**  Whatever has been done with a
repository, lines and notes agree in each of its storages, those that were replaced and those that are saved included.
A transaction that is not open has nothing in any of them; that is so, whatever comes after, once it has been let go of,
taken back or committed, be it with success or not. -/
theorem drafts_tracked (as : List (Action C)) :
    let r := ({} : Repository C).after as
    (∀ st, r.Keeps st → st.Consistent ∧
      ∀ id, (∀ s, r.session? id = some s → s.tx.closedBy ≠ none) → st.Clear id) ∧
    ∀ id, ({} : Repository C).Happens (Ends id) as → ∀ st, r.Keeps st → st.Clear id := by
  intro r
  have hr : r.Sound := sound_after sound_empty as
  have hclear : ∀ st, r.Keeps st → ∀ id, (∀ s, r.session? id = some s → s.tx.closedBy ≠ none) → st.Clear id :=
    fun st hst id hclosed => Storage.clear_of_untouched (hr.kept hst) (tracks_kept hst) (untouched_kept hst hclosed)
  exact ⟨fun st hst => ⟨.of_sound (hr.kept hst) (tracks_kept hst), hclear st hst⟩,
    fun id hends st hst => hclear st hst id (shut_of_happens as hends).closed⟩

end Repository

namespace Sample

/-- Two transactions that apply their writes at once look for the same item and save it; the first one commits, so that
the second one fails to.  A third one has saved and is taken back, a fourth one has saved and is let go of, and a fifth
one has saved and is open. -/
def endings : List (Action (catalog "sample")) :=
  [.start { writeMode := .immediate }, .start { writeMode := .immediate }, .start { writeMode := .immediate },
    .start { writeMode := .immediate }, .start { writeMode := .immediate },
    .statement 2 (.find .item (numbered 1 "").id), .statement 1 (.save .item (numbered 1 "first")),
    .statement 2 (.save .item (numbered 1 "second")), .statement 3 (.save .item (numbered 3 "third")),
    .statement 4 (.save .item (numbered 4 "fourth")), .statement 5 (.save .item (numbered 5 "fifth")),
    .commit 1, .commit 2, .rollback 3, .release 4]

end Sample

open Sample in
/-- Of five transactions that have written, the one that is open is the only one of which something is noted. -/
theorem Repository.drafts_tracked_of_endings :
    let r := ({} : Repository (catalog "sample")).after endings
    ((({} : Repository (catalog "sample")).after (endings.take 12)).commit 2).1 ≠ .ok () ∧
      (∀ id ∈ [1, 2, 3, 4], r.current.Clear id) ∧ ¬r.current.Clear 5 := by
  intro r
  have hkept : r.Keeps r.current := .inl ⟨0, Nat.zero_le _, rfl⟩
  have hat : ∀ {id : TxId} (n : Nat) {a : Action (catalog "sample")} {rest : List (Action (catalog "sample"))},
      endings.drop n = a :: rest → Ends id (({} : Repository (catalog "sample")).after (endings.take n)) a →
        ({} : Repository (catalog "sample")).Happens (Ends id) endings := by
    intro id n a rest hdrop hend
    rw [← List.take_append_drop n endings]
    exact happens_append_right _ _ (hdrop ▸ .inl hend)
  have hends : ∀ id ∈ [1, 2, 3, 4], ({} : Repository (catalog "sample")).Happens (Ends id) endings := by
    simp only [List.forall_mem_cons]
    exact ⟨hat 11 rfl ⟨_, rfl, .inr (.inr ⟨rfl, rfl⟩)⟩, hat 12 rfl ⟨_, rfl, .inr (.inr ⟨rfl, rfl⟩)⟩,
      hat 13 rfl ⟨_, rfl, .inr (.inl rfl)⟩, hat 14 rfl ⟨_, rfl, .inl rfl⟩, fun _ hid => absurd hid List.not_mem_nil⟩
  refine ⟨fun hok => ?_, fun id hid => (drafts_tracked endings).2 id (hends id hid) r.current hkept, fun hclear => ?_⟩
  · cases hok
  · cases hclear.storage

end EntityStore

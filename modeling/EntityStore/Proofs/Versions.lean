import EntityStore.Proofs.Closed
import EntityStore.Proofs.CommitOutcome
import EntityStore.Proofs.Publication
import EntityStore.Proofs.Serializability
import EntityStore.Proofs.WriteAttempts
/-!
# What the version counts

A commit that gets through publishes a version if its transaction has tried to write, whatever has come of that, and
then its locks are checked; if not, it has nothing to do (`Session.commit_of_untried`, `Session.commit_of_tried`).
Whether the version shows under any key is another matter: it does if one of the writes has left a draft
(`Session.exists_renews_iff`).  Where nothing is loaded, the version of a repository is the number of the commits of
the first kind (`Repository.version_counts`).
-/
namespace EntityStore

variable {X : Scalars} {κ : Type} [DecidableEq κ] {C : κ → EntityType X}

/-! ## Writes that leave a draft -/

/-- The write leaves a draft in the storage: it is not a deletion under a key without a line. -/
def TableWrite.Counts (w : TableWrite C) (s : Storage C) : Prop :=
  w.write.change = .delete → s.hasLine w.kind w.write.cells = true

theorem lastRow?_isSome_of_mem {w : TableWrite C} : ∀ {ws : List (TableWrite C)}, w ∈ ws →
    (lastRow? ws w.kind w.write.cells).isSome = true
  | first :: rest, h => by
    rw [lastRow?, Option.isSome_or]
    rcases List.mem_cons.1 h with rfl | h
    · obtain ⟨k, w⟩ := w
      rw [TableWrite.row?_self, if_pos rfl]
      exact Bool.or_true _
    · rw [lastRow?_isSome_of_mem h, Bool.true_or]

namespace Storage

/-- A write that is accepted leaves a draft under its key, or neither a draft nor a line anywhere. -/
theorem counts_or_not {s : Storage C} (hs : s.Sound) {tx : TxId} {v : Nat} {w : TableWrite C}
    (hok : (s.write tx v w.kind w.write).1 = .ok ()) :
    (w.Counts s ∧ ((s.write tx v w.kind w.write).2.draft? tx w.kind w.write.cells).isSome = true) ∨
    (¬w.Counts s ∧ (∀ k c, (s.write tx v w.kind w.write).2.draft? tx k c = s.draft? tx k c) ∧
      ∀ k c, (s.write tx v w.kind w.write).2.hasLine k c = s.hasLine k c) := by
  cases hlands : s.lands tx v w.kind w.write with
  | true =>
    refine .inl ⟨fun hdelete => ?_, ?_⟩
    · rw [lands_eq, hdelete] at hlands
      exact hlands
    · rw [draft?_write_self hs, if_pos ⟨hlands, rfl, rfl⟩]
      rfl
  | false =>
    obtain ⟨hdelete, hnone⟩ := eq_delete_of_lands_eq_false hok hlands
    refine .inr ⟨fun hcounts => ?_, fun k c => ?_, fun k c => ?_⟩
    · rw [hcounts hdelete] at hnone
      cases hnone
    · by_cases hk : w.kind = k
      · subst hk
        rw [draft?_write_self hs, hlands]
        simp
      · exact draft?_write_of_ne s tx tx v hk w.write c
    · rw [Bool.eq_iff_iff, hasLine_write hs, hlands]
      simp

theorem replay_cons {s : Storage C} {tx : TxId} {v : Nat} {w : TableWrite C} {rest : List (TableWrite C)}
    (hok : (s.replay tx v (w :: rest)).1 = .ok ()) :
    (s.write tx v w.kind w.write).1 = .ok () ∧
      s.replay tx v (w :: rest) = (s.write tx v w.kind w.write).2.replay tx v rest := by
  rw [replay] at hok ⊢
  generalize s.write tx v w.kind w.write = r at hok
  obtain ⟨result, s'⟩ := r
  cases result with
  | error e => cases hok
  | ok u => exact ⟨rfl, rfl⟩

/-- A replay leaves a draft exactly if there was one or if one of the writes counts. -/
theorem exists_draft?_replay_iff (tx : TxId) (v : Nat) : ∀ {ws : List (TableWrite C)} {s : Storage C}, s.Sound →
    (s.replay tx v ws).1 = .ok () →
      ((∃ k c, ((s.replay tx v ws).2.draft? tx k c).isSome = true) ↔
        (∃ k c, (s.draft? tx k c).isSome = true) ∨ ∃ w ∈ ws, w.Counts s)
  | [], s, _, _ => by simp [replay]
  | w :: rest, s, hs, hok => by
    obtain ⟨hfirst, hrest⟩ := replay_cons hok
    rw [hrest] at hok ⊢
    have ih := exists_draft?_replay_iff tx v (sound_write hs tx v w.kind w.write) hok
    rcases counts_or_not hs hfirst with ⟨hcounts, hdraft⟩ | ⟨hvain, hdrafts, hlines⟩
    · exact iff_of_true (ih.2 (.inl ⟨_, _, hdraft⟩)) (.inr ⟨w, List.mem_cons_self, hcounts⟩)
    · unfold TableWrite.Counts at hvain ih ⊢
      rw [ih]
      simp only [hdrafts, hlines, List.mem_cons, exists_eq_or_imp, hvain, false_or]

end Storage

/-! ## Commits -/

namespace Session

variable {s : Session C}

/-- **A transaction that has not tried to write commits**, and nothing comes of it. -/
theorem commit_of_untried (ho : s.tx.closedBy = none) (hv : s.tx.invalidated = false) (hn : ¬s.HasTried) :
    s.commit.1 = .ok () ∧ s.commit.2.storage = s.storage := by
  unfold HasTried at hn
  rw [not_or, not_not] at hn
  obtain ⟨huntouched, hpending⟩ := hn
  have hreplayed : s.replayed = (.ok (), s.storage) := by
    unfold replayed
    rw [hpending]
    rfl
  rcases s.commit_spec with ⟨hi, -⟩ | ⟨-, hclose⟩
  · rw [hv] at hi
    cases hi
  · cases hclose with
    | refused _ _ _ closed => exact absurd ho closed
    | idle done _ _ hst _ _ => exact ⟨done, hst⟩
    | ends same _ _ hst _ _ =>
      cases s.commitWrites_spec.1 with
      | failed e _ _ reason =>
        rw [hreplayed] at reason
        rcases reason with hr | ⟨-, ht, -⟩
        · cases hr
        · exact absurd ht huntouched
      | unwritten done hst' _ _ => exact ⟨same.trans done, hst.trans (hst'.trans (congrArg Prod.snd hreplayed))⟩
      | published _ _ _ ht _ =>
        rw [hreplayed] at ht
        exact absurd ht huntouched

/-- **A transaction that has tried to write publishes when it commits**, if the rows that it has locked are as they
were. -/
theorem commit_of_tried (hs : s.Sound) (ht : s.HasTried) (hm : s.tx.isMutable = true) (hok : s.commit.1 = .ok ()) :
    s.replayed.1 = .ok () ∧ s.commit.2.storage = s.replayed.2.publish s.tx.id ∧
      s.commit.2.storage.version = s.storage.version + 1 ∧
      ∀ k c, s.tx.locks.covers k c = true → s.storage.isStale s.version k c = false := by
  cases s.commit_effect with
  | refused e failed _ _ =>
    rw [failed] at hok
    cases hok
  | idle _ _ him _ =>
    rw [hm] at him
    cases him
  | failed e failed _ _ =>
    rw [failed] at hok
    cases hok
  | unwritten _ _ _ hr huntouched =>
    -- what was noted stays noted, and a queue that goes through notes its writes
    exfalso
    by_cases hp : s.tx.pending = []
    · have hreplayed : s.replayed.2 = s.storage := by
        unfold replayed
        rw [hp]
        rfl
      rw [hreplayed] at huntouched
      rcases ht with ht | ht
      · rw [ht] at huntouched
        cases huntouched
      · exact ht hp
    · rw [contains_touched_replayed hp hr] at huntouched
      cases huntouched
  | published _ _ _ _ hst hr _ hl =>
    refine ⟨hr, hst, ?_, (checkLocks_replayed_iff hs.storage).1 hl⟩
    rw [hst]
    exact congrArg Nat.succ (Storage.version_replay ..)

theorem renews_iff (hs : s.Sound) (hst : s.commit.2.storage = s.replayed.2.publish s.tx.id) (k : κ) (c : Cells X) :
    s.Renews k c ↔ (s.replayed.2.draft? s.tx.id k c).isSome = true := by
  have hversion : s.replayed.2.version = s.storage.version := Storage.version_replay ..
  unfold Renews
  rw [hst, Storage.isStale_publish (s.moves_replayed.sound hs.storage), isStale_replayed hs, hversion,
    hs.storage.isStale_of_le (Nat.le_refl _)]
  by_cases hd : (s.replayed.2.draft? s.tx.id k c).isSome = true <;> simp [hd]

/-- **The version that a commit publishes shows somewhere exactly if one of the writes counts**, of those that were
queued or have left a draft. -/
theorem exists_renews_iff {ch : Chronicle C} (h : ch.Knows s) (hs : s.Sound) (hr : s.replayed.1 = .ok ())
    (hst : s.commit.2.storage = s.replayed.2.publish s.tx.id) :
    (∃ k c, s.Renews k c) ↔ ∃ w ∈ ch.effective s.tx.id, w.Counts s.storage := by
  simp only [renews_iff hs hst]
  cases hi : s.tx.options.isImmediate with
  | true =>
    have hreplayed : s.replayed.2 = s.storage := by
      unfold replayed
      rw [hs.queued hi]
      rfl
    simp only [hreplayed, h.drafts hi]
    constructor
    · -- the write that made the draft counts, since its line is there
      rintro ⟨k, c, hlast⟩
      obtain ⟨w, hw, hrow⟩ := exists_row?_of_lastRow? (Option.isSome_iff_ne_none.1 hlast)
      obtain ⟨row, hrow⟩ := Option.ne_none_iff_exists'.1 hrow
      obtain ⟨rfl, rfl⟩ := TableWrite.eq_of_row? hrow
      refine ⟨w, hw, fun _ => ?_⟩
      by_contra hline
      have hdraft := h.drafts hi w.kind w.write.cells
      rw [Storage.draft?_of_hasLine_eq_false (Bool.not_eq_true _ ▸ hline)] at hdraft
      rw [← hdraft] at hlast
      cases hlast
    · rintro ⟨w, hw, -⟩
      exact ⟨w.kind, w.write.cells, lastRow?_isSome_of_mem hw⟩
  | false =>
    have hnone : ¬∃ k c, (s.storage.draft? s.tx.id k c).isSome = true := by
      rintro ⟨k, c, hd⟩
      rw [hs.storage.draft?_of_untouched (hs.untouched_of_delayed hi)] at hd
      cases hd
    refine (Storage.exists_draft?_replay_iff s.tx.id s.version hs.storage hr).trans ?_
    rw [or_iff_right hnone, (h.queued hi).1]

end Session

/-! ## Runs -/

namespace Session

theorem version_commit (s : Session C) (id : TxId) :
    s.commit.2.storage.version =
      s.storage.version + ((s.success? id).toList.filter (fun c => c.version.isSome)).length := by
  have hquiet : s.commit.2.storage.version = s.storage.version → s.commit.2.storage.version =
      s.storage.version + ((s.success? id).toList.filter (fun c => c.version.isSome)).length := by
    intro hversion
    unfold success?
    cases s.commit.1 with
    | error e => exact hversion
    | ok u =>
      dsimp only
      rw [if_neg (by rw [hversion]; exact Nat.lt_irrefl _)]
      exact hversion
  cases s.commit_effect with
  | refused _ failed _ _ => exact hquiet (version_commit_of_error failed)
  | idle _ _ _ hst => exact hquiet (congrArg Storage.version hst)
  | failed _ failed _ _ => exact hquiet (version_commit_of_error failed)
  | unwritten _ _ hst _ _ => exact hquiet ((congrArg Storage.version hst).trans (Storage.version_replay ..))
  | published done _ _ _ hst _ _ _ =>
    have hversion : s.commit.2.storage.version = s.storage.version + 1 := by
      rw [hst]
      exact congrArg Nat.succ (Storage.version_replay ..)
    unfold success?
    rw [done]
    dsimp only
    rw [if_pos (by rw [hversion]; exact Nat.lt_succ_self _), hversion]
    rfl

theorem isSome_version_of_success? {s : Session C} {id : TxId} {c : Commit} (h : s.success? id = some c) :
    c.version.isSome = true ↔ s.storage.version < s.commit.2.storage.version := by
  unfold success? at h
  rw [commit_of_success? h] at h
  cases h
  dsimp only
  split <;> simp_all

end Session

namespace Repository

variable {r : Repository C} {a : Action C}

theorem retired_length_next (ha : ∀ sid, a ≠ .loadSnapshot sid) : (r.next a).retired.length = r.retired.length := by
  have he := r.effect a
  generalize r.next a = r' at he
  cases he with
  | advanced id s s' _ _ _ => exact retired_length_putSession ..
  | released id s _ => exact retired_length_putSession r s.release
  | loaded sid st _ => exact absurd rfl (ha sid)
  | _ => rfl

theorem retired_length_after : ∀ {as : List (Action C)} {r : Repository C}, (∀ sid, Action.loadSnapshot sid ∉ as) →
    (r.after as).retired.length = r.retired.length
  | [], _, _ => rfl
  | a :: _, _, h =>
    (retired_length_after fun sid hm => h sid (List.mem_cons_of_mem a hm)).trans
      (retired_length_next fun sid he => h sid (he ▸ List.mem_cons_self))

/-- **With one storage, an action that is a commit counts once if it publishes**, and nothing else counts. -/
theorem version_next (h : r.Sound) (hone : r.retired.length = 0) (ha : ∀ sid, a ≠ .loadSnapshot sid) :
    (r.next a).version = r.version + ((r.commit? a).toList.filter (fun c => c.version.isSome)).length := by
  unfold version
  rw [← storage_length r, ← storage_length (r.next a), retired_length_next ha]
  rcases storage_next h a (Nat.le_refl r.retired.length) with ⟨hsame, hnone⟩ | ⟨id, s, hact, hs, hhome, hstorage⟩
  · have hquiet : r.commit? a = none := by
      cases hc : r.commit? a with
      | none => rfl
      | some c =>
        obtain ⟨rfl, s, hs, -⟩ := commit?_eq_some hc
        have hle := (h.session _ s hs).2.2.1
        exact absurd (by omega) (hnone _ s rfl hs)
    rw [hsame, hquiet]
    rfl
  · rw [hstorage, ← hhome, ← storage_of_session? hs]
    by_cases hcommit : a = .commit id
    · subst hcommit
      rw [commit?_commit, hs]
      exact s.version_commit id
    · have hother : ∀ other, a ≠ .commit other := by
        rintro other rfl
        cases hact
        exact hcommit rfl
      have hquiet : r.commit? a = none := by
        cases hc : r.commit? a with
        | none => rfl
        | some c => exact absurd (commit?_eq_some hc).1 (hother _)
      rw [a.version_turn s fun other he => absurd he (hother other), hquiet]
      rfl

theorem version_after (as : List (Action C)) (hload : ∀ sid, Action.loadSnapshot sid ∉ as) :
    (({} : Repository C).after as).version =
      ((({} : Repository C).commits as).filter (fun c => c.version.isSome)).length := by
  induction as using List.reverseRecOn with
  | nil => rfl
  | append_singleton as a ih =>
    have hbefore : ∀ sid, Action.loadSnapshot sid ∉ as := fun sid hm => hload sid (List.mem_append_left _ hm)
    have hlast : ∀ sid, a ≠ .loadSnapshot sid := fun sid he =>
      hload sid (List.mem_append_right _ (List.mem_singleton.2 he.symm))
    rw [after_concat, version_next (sound_after sound_empty as) (retired_length_after hbefore) hlast, ih hbefore,
      commits_concat, List.filter_append, List.length_append]

omit [DecidableEq κ] in
theorem not_tries_of_shut {id : TxId} (h : r.Shut id) : ¬Tries id r a := by
  rintro ⟨_, s, _, -, hs, ho, -⟩
  exact h.closed s hs ho

/-- **The commits that publish are those of the transactions that have tried to write.** -/
theorem version_isSome_iff_tried (as : List (Action C)) : ∀ c ∈ ({} : Repository C).commits as,
    (c.version.isSome = true ↔ Tried as c.tx) := by
  induction as using List.reverseRecOn with
  | nil => exact fun c hc => by cases hc
  | append_singleton as a ih =>
    intro c hc
    have hr := sound_after (sound_empty (C := C)) as
    rw [tried_concat]
    rw [commits_concat, List.mem_append] at hc
    rcases hc with hc | hc
    · rw [or_iff_left (not_tries_of_shut (shut_of_mem_commits as c hc))]
      exact ih c hc
    · obtain ⟨rfl, s, hs, hsuccess⟩ := commit?_eq_some (Option.mem_toList.1 hc)
      have hno : ¬Tries c.tx (({} : Repository C).after as) (.commit c.tx) := by
        rintro ⟨_, _, _, heq, -⟩
        cases heq
      have hok := Session.commit_of_success? hsuccess
      have hopen := Session.isOpen_of_commit hok
      have htracks := tracks_after as s hs hopen
      rw [or_iff_left hno, htracks.tried, Session.isSome_version_of_success? hsuccess]
      constructor
      · intro hlt
        by_contra hn
        rw [(Session.commit_of_untried hopen (Session.valid_of_commit hok) hn).2] at hlt
        exact Nat.lt_irrefl _ hlt
      · intro ht
        rw [(Session.commit_of_tried (hr.session c.tx s hs).2.2.2 ht (htracks.isMutable ht) hok).2.2.1]
        exact Nat.lt_succ_self _

/-- **The version counts the commits of transactions that have tried to write.**  Let nothing be loaded.  Then the
version of a repository is the number of the commits that have published, which are those of the transactions that made
a write, be it refused or in vain.  A transaction that made none commits whatever it has read, and leaves the storage as
it is.  One that made some gets through only if nothing that it asked for was renewed, and publishes a version, which
shows under some key exactly if one of its writes counts. -/
theorem version_counts (as : List (Action C)) (hload : ∀ sid, Action.loadSnapshot sid ∉ as) :
    let r := ({} : Repository C).after as
    let ch := ({} : Chronicle C).along {} as
    let commits := ({} : Repository C).commits as
    r.version = (commits.filter (fun c => c.version.isSome)).length ∧
      (∀ c ∈ commits, (c.version.isSome = true ↔ Tried as c.tx)) ∧
      ∀ id s, r.session? id = some s → s.tx.closedBy = none →
        let r' := r.next (.commit id)
        (¬Tried as id → (r.perform (.commit id)).1 = .ok () ∧ r'.current = r.current) ∧
        (Tried as id → (r.perform (.commit id)).1 = .ok () →
          r'.version = r.version + 1 ∧ (∀ k c, Asked as id k c → ¬Renewed as 0 s.version k c) ∧
          ((∃ k c, s.Renews k c) ↔ ∃ w ∈ ch.effective id, w.Counts s.storage)) := by
  intro r ch commits
  have hr : r.Sound := sound_after sound_empty as
  have hone : r.retired.length = 0 := retired_length_after hload
  refine ⟨version_after as hload, version_isSome_iff_tried as, fun id s hs ho => ?_⟩
  obtain ⟨hid, -, hhome, hsound⟩ := hr.session id s hs
  have htracks := tracks_after as s hs ho
  have hhome : s.tx.home = 0 := by omega
  have hperform : r.perform (.commit id) = (s.commit.1, r.putSession s.commit.2) := onSession_of_some hs Session.commit
  have hnext : r.next (.commit id) = r.putSession s.commit.2 := congrArg Prod.snd hperform
  have hcurrent : (r.putSession s.commit.2).current = s.commit.2.storage := by
    rw [current_putSession r (by rw [s.advances_commit.home, hhome]; exact Nat.zero_le _), s.advances_commit.home, hhome,
      hone, if_pos rfl]
  have hstorage : s.storage = r.current := by
    rw [storage_of_session? hs, hhome, ← hone, storage_length]
  rw [hnext, congrArg Prod.fst hperform]
  constructor
  · intro hn
    have huntried := mt htracks.tried.2 hn
    -- only a transaction that has written can be invalidated
    have hvalid : s.tx.invalidated = false :=
      Bool.eq_false_iff.2 fun hi => huntried (htracks.hasWritten (htracks.invalidated hi))
    obtain ⟨hok, hsame⟩ := Session.commit_of_untried ho hvalid huntried
    exact ⟨hok, by rw [hcurrent, hsame, hstorage]⟩
  · intro ht hok
    have htried := htracks.tried.1 ht
    obtain ⟨hreplay, hst, hversion, hstale⟩ := Session.commit_of_tried hsound htried (htracks.isMutable htried) hok
    refine ⟨?_, fun k c hasked hrenewed => ?_, ?_⟩
    · unfold version
      rw [hcurrent, hversion, hstorage]
    · have hfresh := hstale k c ((covers_iff_asked as s hs ho).2 hasked)
      rw [(isStale_iff_renewed as s hs).2 (hhome ▸ hrenewed)] at hfresh
      cases hfresh
    · have hknows := (Chronicle.tells_after as).session id s hs ho
      rw [← hid]
      exact Session.exists_renews_iff hknows hsound hreplay hst

end Repository

namespace Sample

/-- A transaction deletes an item that is not there. -/
def vainDeletion : List (Action (catalog "sample")) := [.start {}, .statement 1 (.delete .item itemIdent)]

/-- A transaction reads an item and deletes another one that is not there, and a second transaction changes the first. -/
def vainDeletionBesideWriter : List (Action (catalog "sample")) :=
  oneItem ++ [.start {}, .statement 2 (.find .item itemIdent), .statement 2 (.delete .item (numbered 2 "").id),
    .start {}, .statement 3 (.save .item (numbered 1 "changed")), .commit 3]

end Sample

open Sample in
/-- The commit of a deletion in vain publishes a version that shows nowhere, and meets a conflict over what was read. -/
theorem Repository.vain_commit_counts :
    let r := ({} : Repository (catalog "sample")).after vainDeletion
    let r' := ({} : Repository (catalog "sample")).after vainDeletionBesideWriter
    ((r.perform (.commit 1)).1 = .ok () ∧ r.version = 0 ∧ (r.next (.commit 1)).version = 1 ∧
      ∃ s, r.session? 1 = some s ∧ ∀ k c, ¬s.Renews k c) ∧
    ∃ message, (r'.perform (.commit 2)).1 = .error (.optimisticLock message) := by
  refine ⟨⟨rfl, rfl, rfl, _, rfl, fun k c h => ?_⟩, _, rfl⟩
  cases k <;> cases h

open Sample in
theorem Repository.version_counts_vainDeletion :
    (∀ sid, Action.loadSnapshot sid ∉ vainDeletion ++ [.commit 1]) ∧
      (({} : Repository (catalog "sample")).after (vainDeletion ++ [.commit 1])).version =
        ((({} : Repository (catalog "sample")).commits (vainDeletion ++ [.commit 1])).filter
          (fun c => c.version.isSome)).length ∧
      Tried (vainDeletion ++ [.commit 1]) 1 := by
  have hload : ∀ sid, Action.loadSnapshot sid ∉ vainDeletion ++ [.commit 1] := by simp [vainDeletion]
  obtain ⟨hversion, htried, -⟩ := version_counts (vainDeletion ++ [.commit 1]) hload
  have hcommits : ({} : Repository (catalog "sample")).commits (vainDeletion ++ [.commit 1]) = [⟨1, some 1⟩] := by
    decide +kernel
  exact ⟨hload, hversion, (htried ⟨1, some 1⟩ (by rw [hcommits]; exact List.mem_singleton_self _)).1 rfl⟩

end EntityStore

import EntityStore.Proofs.Commits
import EntityStore.Proofs.Turns
import Mathlib.Data.List.Induction
/-!
# What was published after a snapshot

A commit renews a key if it leaves a version there that is younger than all that were there before.
`Repository.isStale_iff_renewed` says that nothing else does: a key is stale to a snapshot exactly if a commit with a
later version has renewed it.
-/
namespace EntityStore

variable {X : Scalars} {κ : Type} [DecidableEq κ] {C : κ → EntityType X}

namespace Session

/-- The commit of the transaction leaves a version of its own under a key. -/
def Renews (s : Session C) (k : κ) (c : Cells X) : Prop := s.commit.2.storage.isStale s.storage.version k c = true

theorem isStale_replayed {s : Session C} (hs : s.Sound) (v : Nat) (k : κ) (c : Cells X) :
    s.replayed.2.isStale v k c = s.storage.isStale v k c := Storage.isStale_replay _ _ _ _ _ _ hs.storage

theorem not_renews {s : Session C} (hs : s.Sound)
    (h : s.commit.2.storage.isStale s.storage.version = s.storage.isStale s.storage.version) (k : κ) (c : Cells X) :
    ¬s.Renews k c := by
  unfold Renews
  rw [h, hs.storage.isStale_of_le (Nat.le_refl _)]
  exact Bool.false_ne_true

/-- **What a commit makes stale, it renews.** -/
theorem isStale_commit {s : Session C} (hs : s.Sound) (v : Nat) (k : κ) (c : Cells X) :
    s.commit.2.storage.isStale v k c = true ↔
      s.storage.isStale v k c = true ∨ s.Renews k c ∧ v < s.commit.2.storage.version := by
  have hsound := s.moves_replayed.sound hs.storage
  have hquiet : s.commit.2.storage.version = s.storage.version → (s.commit.2.storage.isStale v k c = true ↔
      s.storage.isStale v k c = true ∨ s.Renews k c ∧ v < s.commit.2.storage.version) := by
    intro hversion
    have hstale := s.advances_commit.moves.isStale_eq hs.storage hversion
    have hno : ¬s.Renews k c := not_renews hs (funext fun k => funext fun c => hstale _ k c) k c
    simp only [hstale, hno, false_and, or_false]
  cases s.commit_effect with
  | refused _ failed _ _ => exact hquiet (version_commit_of_error failed)
  | idle _ _ _ hst => exact hquiet (congrArg Storage.version hst)
  | failed _ failed _ _ => exact hquiet (version_commit_of_error failed)
  | unwritten _ _ hst _ _ => exact hquiet ((congrArg Storage.version hst).trans (Storage.version_replay ..))
  | published _ _ _ _ hst _ _ _ =>
    have hstale : ∀ u, s.commit.2.storage.isStale u k c =
        if (s.replayed.2.draft? s.tx.id k c).isSome then decide (u < s.storage.version + 1)
        else s.storage.isStale u k c := by
      intro u
      rw [hst, Storage.isStale_publish hsound, isStale_replayed hs, show s.replayed.2.version = s.storage.version from
        Storage.version_replay ..]
    have hversion : s.commit.2.storage.version = s.storage.version + 1 := by
      rw [hst]
      exact congrArg Nat.succ (Storage.version_replay ..)
    unfold Renews
    rw [hstale, hstale, hversion]
    by_cases hd : (s.replayed.2.draft? s.tx.id k c).isSome = true
    · simp only [if_pos hd, decide_eq_true_eq, Nat.lt_succ_self, true_and]
      refine ⟨.inr, fun h => h.elim (fun hstale => ?_) fun h => h⟩
      by_contra hle
      rw [hs.storage.isStale_of_le (by omega)] at hstale
      cases hstale
    · simp only [if_neg hd, hs.storage.isStale_of_le (Nat.le_refl _), Bool.false_eq_true, false_and, or_false]

omit [DecidableEq κ] in
theorem snapshot_of_closeEffect {s s' : Session C} {closing : Closing} {finished : Except Error Unit × Session C}
    {answer : Except Error Unit} (h : CloseEffect s closing finished answer s') :
    s'.tx.snapshot = s.tx.snapshot ∨ s'.tx.snapshot = some s.version := by
  cases h with
  | refused _ _ same _ => exact .inl (congrArg (fun s => s.tx.snapshot) same)
  | idle _ _ _ _ hf _ => exact hf.snapshot
  | ends _ _ _ _ hf _ => exact hf.snapshot

end Session

/-- A turn fixes the snapshot on what the transaction has seen anyhow, or not at all. -/
theorem Action.snapshot_turn (a : Action C) (s : Session C) :
    (a.turn s).tx.snapshot = s.tx.snapshot ∨ (a.turn s).tx.snapshot = some s.version := by
  cases a with
  | openTable id k => exact (Session.Reads.openTable s k).snapshot.imp_right And.right
  | statement id op =>
    cases op.effect s with
    | reads hr _ => exact hr.snapshot.imp_right And.right
    | queues w _ _ _ _ hq _ => exact .inl hq.snapshot
    | applies w _ _ _ _ ha _ => exact .inr ha.snapshot
  | commit id =>
    rcases s.commit_spec with ⟨-, h⟩ | ⟨-, h⟩
    · exact .inl (congrArg (fun r => r.2.tx.snapshot) h)
    · exact Session.snapshot_of_closeEffect h
  | rollback id => exact Session.snapshot_of_closeEffect s.rollback_spec
  | release id => exact .inl (congrArg Transaction.snapshot s.tx_release)
  | _ => exact .inl rfl

namespace Repository

/-- A commit in the storage in place `home`, with a later version than `v`, renews a key. -/
def Renews (home v : Nat) (k : κ) (c : Cells X) (r : Repository C) (a : Action C) : Prop :=
  ∃ id s, a = .commit id ∧ r.session? id = some s ∧ s.tx.home = home ∧ s.Renews k c ∧ v < s.commit.2.storage.version

/-- In a run, a commit with a later version than `v` has renewed a key in the storage in place `home`. -/
def Renewed (as : List (Action C)) (home v : Nat) (k : κ) (c : Cells X) : Prop :=
  ({} : Repository C).Happens (Renews home v k c) as

theorem renewed_concat (as : List (Action C)) (a : Action C) (home v : Nat) (k : κ) (c : Cells X) :
    Renewed (as ++ [a]) home v k c ↔
      Renewed as home v k c ∨ Renews home v k c (({} : Repository C).after as) a := happens_concat ..

variable {r : Repository C}

/-- **An action makes stale what it renews.** -/
theorem isStale_next (h : r.Sound) (a : Action C) {home : Nat} (hhome : home ≤ r.retired.length) (v : Nat) (k : κ)
    (c : Cells X) :
    ((r.next a).storage home).isStale v k c = true ↔
      (r.storage home).isStale v k c = true ∨ Renews home v k c r a := by
  rcases storage_next h a hhome with ⟨hsame, hnone⟩ | ⟨id, s, hact, hs, rfl, hstorage⟩
  · have hno : ¬Renews home v k c r a := by
      rintro ⟨id, s, rfl, hs, he, -⟩
      exact hnone id s rfl hs he
    simp only [hsame, hno, or_false]
  · obtain ⟨-, -, -, hsound⟩ := h.session id s hs
    rw [hstorage, ← storage_of_session? hs]
    by_cases hcommit : a = .commit id
    · subst hcommit
      refine (Session.isStale_commit hsound v k c).trans (or_congr_right ⟨fun h => ⟨id, s, rfl, hs, rfl, h⟩, ?_⟩)
      rintro ⟨id', s', heq, hs', -, h⟩
      cases heq
      rw [hs] at hs'
      cases hs'
      exact h
    · have hother : ∀ other, a ≠ .commit other := by
        rintro other rfl
        cases hact
        exact hcommit rfl
      have hno : ¬Renews s.tx.home v k c r a := by
        rintro ⟨other, -, he, -⟩
        exact hother other he
      have hversion := a.version_turn s fun other he => absurd he (hother other)
      simp only [(a.advances_turn s).moves.isStale_eq hsound.storage hversion, hno, or_false]

/-- A transaction sees the version that was the newest when its snapshot was fixed. -/
theorem version_of_next (h : r.Sound) {a : Action C} {id : TxId} {s' : Session C}
    (hs' : (r.next a).session? id = some s') {v : Nat} (hv : s'.tx.snapshot = some v) :
    ∃ s, r.session? id = some s ∧ s.version = v ∧ s'.tx.home = s.tx.home := by
  rcases next_cases h a hs' with ⟨o, rfl, rfl⟩ | ⟨s, hs, ⟨-, htx⟩ | ⟨-, rfl⟩⟩
  · cases hv
  · exact ⟨s, hs, Session.version_of_snapshot (htx ▸ hv), congrArg Transaction.home htx⟩
  · refine ⟨s, hs, ?_, (a.advances_turn s).home⟩
    rcases a.snapshot_turn s with hsnap | hsnap
    · exact Session.version_of_snapshot (hsnap ▸ hv)
    · exact Option.some.inj (hsnap.symm.trans hv)

theorem version_next_le (h : r.Sound) (a : Action C) {home : Nat} (hhome : home ≤ r.retired.length) :
    (r.storage home).version ≤ ((r.next a).storage home).version := by
  rcases storage_next h a hhome with ⟨hsame, -⟩ | ⟨id, s, hact, hs, rfl, hstorage⟩
  · exact Nat.le_of_eq (congrArg Storage.version hsame.symm)
  · rw [hstorage, ← storage_of_session? hs]
    exact (a.advances_turn s).moves.version_le

theorem retired_length_next_le (r : Repository C) (a : Action C) : r.retired.length ≤ (r.next a).retired.length := by
  have he := r.effect a
  generalize r.next a = r' at he
  cases he with
  | advanced id s s' _ _ _ => exact Nat.le_of_eq (retired_length_putSession ..).symm
  | released id s _ => exact Nat.le_of_eq (retired_length_putSession r s.release).symm
  | loaded sid st _ => simp [load]
  | _ => exact Nat.le_refl _

theorem retired_length_after_le : ∀ (as : List (Action C)) (r : Repository C),
    r.retired.length ≤ (r.after as).retired.length
  | [], _ => Nat.le_refl _
  | a :: rest, r => Nat.le_trans (retired_length_next_le r a) (retired_length_after_le rest (r.next a))

theorem lt_version_of_renewed {home v : Nat} {k : κ} {c : Cells X} (as : List (Action C)) : Renewed as home v k c →
    home ≤ (({} : Repository C).after as).retired.length ∧
      v < ((({} : Repository C).after as).storage home).version := by
  induction as using List.reverseRecOn with
  | nil => exact False.elim
  | append_singleton as a ih =>
    intro hrenewed
    have hr := sound_after (sound_empty (C := C)) as
    rw [after_concat]
    rcases (renewed_concat ..).1 hrenewed with hrenewed | ⟨id, s, rfl, hs, rfl, -, hlt⟩
    · obtain ⟨hhome, hlt⟩ := ih hrenewed
      exact ⟨Nat.le_trans hhome (retired_length_next_le ..), Nat.lt_of_lt_of_le hlt (version_next_le hr a hhome)⟩
    · have hhome := (hr.session id s hs).2.2.1
      refine ⟨Nat.le_trans hhome (retired_length_next_le ..), ?_⟩
      rcases storage_next hr (.commit id) hhome with ⟨-, hnone⟩ | ⟨id', s', hact, hs', -, hstorage⟩
      · exact absurd rfl (hnone id s rfl hs)
      · cases hact
        rw [hs] at hs'
        cases hs'
        rw [hstorage]
        exact hlt

/-- **A key is stale to a transaction exactly if a commit after its snapshot has renewed it.** -/
theorem isStale_iff_renewed {id : TxId} {k : κ} {c : Cells X} (as : List (Action C)) : ∀ s : Session C,
    (({} : Repository C).after as).session? id = some s →
      (s.storage.isStale s.version k c = true ↔ Renewed as s.tx.home s.version k c) := by
  induction as using List.reverseRecOn with
  | nil =>
    intro s hs
    cases hs
  | append_singleton as a ih =>
    intro s' hs'
    have hr := sound_after (sound_empty (C := C)) as
    obtain ⟨-, -, -, hsound'⟩ := (sound_after (sound_empty (C := C)) (as ++ [a])).session id s' hs'
    cases hv : s'.tx.snapshot with
    | none =>
      -- before its first statement, the transaction sees the newest version
      have hversion : s'.version = s'.storage.version := by
        unfold Session.version
        rw [hv]
        rfl
      have hnot : ¬Renewed (as ++ [a]) s'.tx.home s'.version k c := by
        intro hrenewed
        have hlt := (lt_version_of_renewed _ hrenewed).2
        rw [← storage_of_session? hs', ← hversion] at hlt
        exact Nat.lt_irrefl _ hlt
      rw [hversion, hsound'.storage.isStale_of_le (Nat.le_refl _), ← hversion]
      simp only [hnot, Bool.false_eq_true]
    | some v =>
      obtain ⟨s, hs, hversion, hhome⟩ := version_of_next hr (after_concat _ as a ▸ hs') hv
      obtain ⟨-, -, hsh, -⟩ := hr.session id s hs
      have hv' := Session.version_of_snapshot hv
      have hold := ih s hs
      rw [storage_of_session? hs, hversion, ← hhome] at hold
      rw [storage_of_session? hs', after_concat, hv', renewed_concat,
        isStale_next hr a (hhome ▸ hsh), hold]

end Repository

end EntityStore

import EntityStore.Proofs.Chronicle
/-!
# Who has committed

`Repository.commits` lists the commits that succeed in a run, with the versions that they publish.  A transaction that
is gone (`Repository.Gone`) never commits again, and one of which others use nothing but the tables and the log
(`Action.Respects`) is not committed by them.  Whatever a chronicle holds as published in a run, one of its commits has
published (`Chronicle.holds_along`).
-/
namespace EntityStore

variable {X : Scalars} {κ : Type} [DecidableEq κ] {C : κ → EntityType X}

/-- A commit that was answered without an error. -/
structure Commit where
  tx : TxId
  /-- The version that it has published, if there was anything to publish. -/
  version : Option Nat
deriving DecidableEq

namespace Action

/-- Whether an action uses nothing but the tables and the log of its transaction. -/
def UsesTables : Action C → Prop
  | .openTable _ _ | .statement _ _ | .record _ _ => True
  | _ => False

/-- Of the transaction `tx`, an action uses at most the tables and the log. -/
def Respects (tx : TxId) (a : Action C) : Prop := a.actor? = some tx → a.UsesTables

omit [DecidableEq κ] in
theorem Respects.ne_commit {tx : TxId} {a : Action C} (h : a.Respects tx) : a ≠ .commit tx := by
  rintro rfl
  exact h rfl

end Action

/-- The commit of a transaction under its number, if it succeeds. -/
def Session.success? (s : Session C) (id : TxId) : Option Commit :=
  match s.commit.1 with
  | .error _ => none
  | .ok () =>
    let version := s.commit.2.storage.version
    some { tx := id, version := if s.storage.version < version then some version else none }

theorem Session.success?_of_lt {s : Session C} (h : s.storage.version < s.commit.2.storage.version) (id : TxId) :
    s.success? id = some { tx := id, version := some s.commit.2.storage.version } := by
  unfold success?
  cases hc : s.commit.1 with
  | error e =>
    rw [version_commit_of_error hc] at h
    exact absurd h (Nat.lt_irrefl _)
  | ok u => simp only [if_pos h]

theorem Session.commit_of_success? {s : Session C} {id : TxId} {c : Commit} (h : s.success? id = some c) :
    s.commit.1 = .ok () := by
  unfold Session.success? at h
  split at h
  · cases h
  · assumption

namespace Repository

/-- The commit that an action is, if it succeeds. -/
def commit? (r : Repository C) : Action C → Option Commit
  | .commit id => (r.session? id).bind (fun s => s.success? id)
  | _ => none

/-- The commits that succeed in a run. -/
def commits (r : Repository C) : List (Action C) → List Commit
  | [] => []
  | a :: rest => (r.commit? a).toList ++ (r.next a).commits rest

theorem commits_append (as bs : List (Action C)) (r : Repository C) :
    r.commits (as ++ bs) = r.commits as ++ (r.after as).commits bs := by
  induction as generalizing r with
  | nil => rfl
  | cons a rest ih =>
    rw [List.cons_append, commits, ih, commits, List.append_assoc]
    rfl

theorem commits_concat (r : Repository C) (as : List (Action C)) (a : Action C) :
    r.commits (as ++ [a]) = r.commits as ++ ((r.after as).commit? a).toList := by
  rw [commits_append]
  unfold commits commits
  rw [List.append_nil]

/-- Those of them that are of some transactions. -/
def commitsOf (r : Repository C) (ids : List TxId) (as : List (Action C)) : List Commit :=
  (r.commits as).filter (fun c => c.tx ∈ ids)

theorem commitsOf_append (r : Repository C) (ids : List TxId) (as bs : List (Action C)) :
    r.commitsOf ids (as ++ bs) = r.commitsOf ids as ++ (r.after as).commitsOf ids bs := by
  unfold commitsOf
  rw [commits_append, List.filter_append]

theorem tx_mem_of_mem_commitsOf {r : Repository C} {ids : List TxId} {as : List (Action C)} {c : Commit}
    (h : c ∈ r.commitsOf ids as) : c.tx ∈ ids := of_decide_eq_true (List.mem_filter.1 h).2

theorem commitsOf_eq_nil_iff {r : Repository C} {ids : List TxId} {as : List (Action C)} :
    r.commitsOf ids as = [] ↔ ∀ c ∈ r.commits as, c.tx ∉ ids := by
  unfold commitsOf
  rw [List.filter_eq_nil_iff]
  simp only [decide_eq_true_eq]

theorem commitsOf_concat (r : Repository C) (ids : List TxId) (as : List (Action C)) (a : Action C) :
    r.commitsOf ids (as ++ [a]) =
      r.commitsOf ids as ++ ((r.after as).commit? a).toList.filter (fun c => c.tx ∈ ids) := by
  unfold commitsOf
  rw [commits_concat, List.filter_append]

theorem commitsOf_concat_eq_nil {r : Repository C} {ids : List TxId} {as : List (Action C)} {a : Action C}
    (h : r.commitsOf ids as = []) (ha : (r.after as).commit? a = none) : r.commitsOf ids (as ++ [a]) = [] := by
  rw [commitsOf_concat, h, ha]
  rfl

theorem commitsOf_concat_of_eq_nil {r : Repository C} {ids : List TxId} {as : List (Action C)}
    (h : r.commitsOf ids as = []) (tx : TxId) : r.commitsOf (ids ++ [tx]) as = r.commitsOf [tx] as := by
  rw [commitsOf_eq_nil_iff] at h
  refine List.filter_congr fun c hc => ?_
  simp [h c hc]

theorem commit?_eq_some {r : Repository C} {a : Action C} {c : Commit} (h : r.commit? a = some c) :
    a = .commit c.tx ∧ ∃ s, r.session? c.tx = some s ∧ s.success? c.tx = some c := by
  cases a with
  | commit id =>
    obtain ⟨s, hs, hc⟩ := Option.bind_eq_some_iff.1 h
    have htx : c.tx = id := by
      unfold Session.success? at hc
      split at hc <;> cases hc
      rfl
    subst htx
    exact ⟨rfl, s, hs, hc⟩
  | _ => cases h

theorem commit?_commit (r : Repository C) (id : TxId) :
    r.commit? (.commit id) = (r.session? id).bind (fun s => s.success? id) := rfl

theorem commit?_of_ok {r : Repository C} {id : TxId} (h : (r.commit id).1 = .ok ()) :
    ∃ c, r.commit? (.commit id) = some c ∧ c.tx = id := by
  unfold commit onSession at h
  rw [commit?_commit]
  cases hs : r.session? id with
  | none =>
    rw [hs] at h
    cases h
  | some s =>
    rw [hs] at h
    have h : s.commit.1 = .ok () := h
    rw [Option.bind_some]
    unfold Session.success?
    rw [h]
    exact ⟨_, rfl, rfl⟩

theorem commit?_of_error {r : Repository C} {id : TxId} {e : Error} (h : (r.commit id).1 = .error e) :
    r.commit? (.commit id) = none := by
  unfold commit onSession at h
  rw [commit?_commit]
  cases hs : r.session? id with
  | none => rfl
  | some s =>
    rw [hs] at h
    have h : s.commit.1 = .error e := h
    rw [Option.bind_some]
    unfold Session.success?
    rw [h]

/-! ## Transactions that are gone -/

/-- The number was used, and there is no transaction under it. -/
structure Gone (r : Repository C) (id : TxId) : Prop where
  used : id ≤ r.lastTx
  absent : r.session? id = none

/-- **What is gone stays gone.** -/
theorem Gone.next {r : Repository C} {id : TxId} (hg : r.Gone id) (h : r.Sound) (a : Action C) :
    (r.next a).Gone id := by
  refine ⟨Nat.le_trans hg.used (r.lastTx_next a), ?_⟩
  have hput : ∀ {other : TxId} {s s' : Session C}, r.session? other = some s → Session.Advances s s' →
      (r.putSession s').session? id = none := by
    intro other s s' hs hadv
    obtain ⟨hsid, -, hhome, -⟩ := h.session other s hs
    have hne : s'.tx.id ≠ id := by
      rintro rfl
      have habsent := hg.absent
      rw [hadv.id, hsid, hs] at habsent
      cases habsent
    rw [session?_putSession_of_ne h (hadv.home ▸ hhome) hne, hg.absent]
    rfl
  have he := r.effect a
  generalize r.next a = r' at he
  cases he with
  | none => exact hg.absent
  | started options =>
    rw [session?_start, if_neg]
    · exact hg.absent
    · rintro rfl
      exact Nat.not_succ_le_self _ hg.used
  | advanced other s s' _ hs hadv => exact hput hs hadv
  | released other s hs =>
    rw [session?_forget]
    split
    · rfl
    · exact hput hs s.advances_release
  | saved label => exact hg.absent
  | loaded sid st _ => exact (session?_load h st id).trans hg.absent
  | dropped sid => exact hg.absent

theorem Gone.after {id : TxId} : ∀ (as : List (Action C)) {r : Repository C}, r.Gone id → r.Sound → (r.after as).Gone id
  | [], _, hg, _ => hg
  | a :: rest, _, hg, h => Gone.after rest (hg.next h a) (sound_next h a)

theorem Gone.ne_of_mem_commits {id : TxId} : ∀ {as : List (Action C)} {r : Repository C}, r.Gone id → r.Sound →
    ∀ c ∈ r.commits as, c.tx ≠ id
  | [], _, _, _, _, hc => by cases hc
  | a :: rest, r, hg, h, c, hc => by
    rcases List.mem_append.1 hc with hc | hc
    · obtain ⟨-, s, hs, -⟩ := commit?_eq_some (Option.mem_toList.1 hc)
      rintro rfl
      rw [hg.absent] at hs
      cases hs
    · exact Gone.ne_of_mem_commits (hg.next h a) (sound_next h a) c hc

theorem commitsOf_of_gone {r : Repository C} {ids : List TxId} (h : r.Sound) (hg : ∀ id ∈ ids, r.Gone id)
    (as : List (Action C)) : r.commitsOf ids as = [] := by
  rw [commitsOf_eq_nil_iff]
  intro c hc hmem
  exact (hg c.tx hmem).ne_of_mem_commits h c hc rfl

theorem Gone.draft?_eq_none {r : Repository C} {id : TxId} (hg : r.Gone id) (h : r.Sound) {home : Nat}
    (hhome : home ≤ r.retired.length) (k : κ) (c : Cells X) : (r.storage home).draft? id k c = none := by
  refine (h.storage home hhome).draft?_of_untouched (h.untouched_of_closed hhome fun s hs => ?_) k c
  rw [hg.absent] at hs
  cases hs

theorem gone_release {r : Repository C} {id : TxId} (hid : id ≤ r.lastTx) : (r.next (.release id)).Gone id := by
  refine ⟨Nat.le_trans hid (r.lastTx_next _), ?_⟩
  show (r.release id).session? id = none
  unfold release
  cases hs : r.session? id with
  | none => exact hs
  | some s => exact (session?_forget (r.putSession s.release) id id).trans (if_pos rfl)

/-! ## Who commits -/

theorem le_lastTx_of_mem_commits : ∀ {as : List (Action C)} {r : Repository C}, r.Sound → ∀ c ∈ r.commits as,
    c.tx ≤ (r.after as).lastTx
  | [], _, _, _, hc => by cases hc
  | a :: rest, r, h, c, hc => by
    rcases List.mem_append.1 hc with hc | hc
    · obtain ⟨-, s, hs, -⟩ := commit?_eq_some (Option.mem_toList.1 hc)
      exact Nat.le_trans (h.session _ s hs).2.1 (r.lastTx_after (a :: rest))
    · exact le_lastTx_of_mem_commits (sound_next h a) c hc

theorem ne_of_mem_commits_of_forall_ne {tx : TxId} : ∀ {as : List (Action C)} {r : Repository C},
    (∀ a ∈ as, a ≠ .commit tx) → ∀ c ∈ r.commits as, c.tx ≠ tx
  | [], _, _, _, hc => by cases hc
  | a :: rest, r, ha, c, hc => by
    rcases List.mem_append.1 hc with hc | hc
    · obtain ⟨rfl, -⟩ := commit?_eq_some (Option.mem_toList.1 hc)
      rintro rfl
      exact ha _ List.mem_cons_self rfl
    · exact ne_of_mem_commits_of_forall_ne (fun b hb => ha b (List.mem_cons_of_mem a hb)) c hc

theorem commitsOf_of_lt {r : Repository C} {ids : List TxId} (h : r.Sound) {as : List (Action C)}
    (hids : ∀ id ∈ ids, (r.after as).lastTx < id) : r.commitsOf ids as = [] := by
  rw [commitsOf_eq_nil_iff]
  intro c hc hmem
  exact Nat.not_lt_of_le (le_lastTx_of_mem_commits h c hc) (hids c.tx hmem)

theorem commitsOf_of_forall_ne {tx : TxId} {as : List (Action C)} {r : Repository C} (h : ∀ a ∈ as, a ≠ .commit tx) :
    r.commitsOf [tx] as = [] := by
  rw [commitsOf_eq_nil_iff]
  intro c hc
  rw [List.mem_singleton]
  exact ne_of_mem_commits_of_forall_ne h c hc

theorem commitsOf_of_respects {tx : TxId} {as : List (Action C)} {r : Repository C} (h : ∀ a ∈ as, a.Respects tx) :
    r.commitsOf [tx] as = [] := commitsOf_of_forall_ne fun a ha => (h a ha).ne_commit

end Repository

/-! ## What a chronicle holds as published -/

namespace Chronicle

/-- The publication is in the ledger of a storage or of a snapshot. -/
def Holds (ch : Chronicle C) (p : Publication C) : Prop := (∃ home, p ∈ ch.ledger home) ∨ ∃ sid, p ∈ ch.saved sid

theorem mem_of_mem_update {ι α : Type} [DecidableEq ι] {f : ι → List α} {i j : ι} {l : List α} {x : α}
    (h : x ∈ Function.update f i l j) : x ∈ l ∨ x ∈ f j := by
  by_cases he : j = i
  · subst he
    rw [Function.update_self] at h
    exact .inl h
  · rw [Function.update_of_ne he] at h
    exact .inr h

omit [DecidableEq κ] in
theorem holds_update_ledger {ch : Chronicle C} {home : Nat} {l : Ledger C} {p : Publication C}
    (hp : ({ ch with ledger := Function.update ch.ledger home l } : Chronicle C).Holds p) : p ∈ l ∨ ch.Holds p := by
  rcases hp with ⟨home', hp⟩ | hp
  · rcases mem_of_mem_update hp with hp | hp
    · exact .inl hp
    · exact .inr (.inl ⟨home', hp⟩)
  · exact .inr (.inr hp)

omit [DecidableEq κ] in
theorem holds_update_saved {ch : Chronicle C} {sid : X.uuid} {l : Ledger C} {p : Publication C}
    (hp : ({ ch with saved := Function.update ch.saved sid l } : Chronicle C).Holds p) : p ∈ l ∨ ch.Holds p := by
  rcases hp with hp | ⟨sid', hp⟩
  · exact .inr (.inl hp)
  · rcases mem_of_mem_update hp with hp | hp
    · exact .inl hp
    · exact .inr (.inr ⟨sid', hp⟩)

theorem holds_noteCommit {ch : Chronicle C} {s : Session C} {p : Publication C} (hp : (ch.noteCommit s).Holds p) :
    ch.Holds p ∨ ∃ c, s.success? s.tx.id = some c ∧ c.tx = p.tx ∧ c.version = some p.version := by
  unfold noteCommit at hp
  split at hp
  · rename_i hlt
    rcases holds_update_ledger hp with hp | hp
    · rcases List.mem_cons.1 hp with rfl | hp
      · exact .inr ⟨_, Session.success?_of_lt hlt s.tx.id, rfl, rfl⟩
      · exact .inl (.inl ⟨s.tx.home, hp⟩)
    · exact .inl hp
  · exact .inl hp

theorem holds_note {ch : Chronicle C} {r : Repository C} (h : r.Sound) {a : Action C} {p : Publication C}
    (hp : (ch.note r a).Holds p) :
    ch.Holds p ∨ ∃ c, r.commit? a = some c ∧ c.tx = p.tx ∧ c.version = some p.version := by
  cases a with
  | statement id op =>
    unfold note at hp
    cases hs : r.session? id with
    | none =>
      simp only [hs] at hp
      exact .inl hp
    | some s =>
      simp only [hs, noteStatement] at hp
      split at hp <;> exact .inl hp
  | commit id =>
    unfold note at hp
    rw [Repository.commit?_commit]
    cases hs : r.session? id with
    | none =>
      simp only [hs] at hp
      exact .inl hp
    | some s =>
      simp only [hs] at hp
      have hcommit := holds_noteCommit hp
      rw [(h.session id s hs).1] at hcommit
      exact hcommit
  | makeSnapshot new =>
    rcases holds_update_saved hp with hp | hp
    · exact .inl (.inl ⟨r.retired.length, hp⟩)
    · exact .inl hp
  | loadSnapshot sid =>
    unfold note at hp
    dsimp only at hp
    split at hp
    · rcases holds_update_ledger hp with hp | hp
      · exact .inl (.inr ⟨sid, hp⟩)
      · exact .inl hp
    · exact .inl hp
  | _ => exact .inl hp

/-- **What a chronicle holds as published was held before or is of a commit.** -/
theorem holds_along {p : Publication C} : ∀ {as : List (Action C)} {ch : Chronicle C} {r : Repository C}, r.Sound →
    (ch.along r as).Holds p → ch.Holds p ∨ ∃ c ∈ r.commits as, c.tx = p.tx ∧ c.version = some p.version
  | [], _, _, _, hp => .inl hp
  | a :: rest, ch, r, h, hp => by
    have hp : ((ch.note r a).along (r.next a) rest).Holds p := hp
    rcases holds_along (Repository.sound_next h a) hp with hp | ⟨c, hc, hcp⟩
    · rcases holds_note h hp with hp | ⟨c, hc, hcp⟩
      · exact .inl hp
      · exact .inr ⟨c, List.mem_append_left _ (Option.mem_toList.2 hc), hcp⟩
    · exact .inr ⟨c, List.mem_append_right _ hc, hcp⟩

theorem exists_commit_of_holds {as : List (Action C)} {p : Publication C}
    (hp : (({} : Chronicle C).along {} as).Holds p) :
    ∃ c ∈ ({} : Repository C).commits as, c.tx = p.tx ∧ c.version = some p.version := by
  rcases holds_along Repository.sound_empty hp with (⟨home, hnone⟩ | ⟨sid, hnone⟩) | hc
  · exact (List.not_mem_nil hnone).elim
  · exact (List.not_mem_nil hnone).elim
  · exact hc

end Chronicle

end EntityStore

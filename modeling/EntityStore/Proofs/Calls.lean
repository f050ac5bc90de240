import EntityStore.Proofs.Attempts
import EntityStore.Tx.Call
import Mathlib.Data.List.Basic
/-!
# What a call publishes

A call opens a new transaction for each attempt and lets go of the one before, so that only the last attempt of a call
can have committed.  `Call.Traced` is what holds between the attempts, and `Manager.tx_spec` is what comes of it: the
transactions of a call commit once if its result stands for a commit, and else they never do.
-/
namespace EntityStore

variable {X : Scalars} {κ : Type} [DecidableEq κ] {C : κ → EntityType X} {V α : Type}

theorem FaultyRepository.start_cases (st : FaultyRepository C) (o : TxOptions) :
    ((∃ e, (st.start o).1 = .error e) ∧ (st.start o).2.inner = st.inner) ∨
    ((st.start o).1 = .ok (st.inner.lastTx + 1) ∧ (st.start o).2.inner = st.inner.next (.start o)) := by
  unfold start
  dsimp only
  split
  · exact .inl ⟨⟨_, rfl⟩, rfl⟩
  · exact .inr ⟨rfl, rfl⟩

/-- Code that leaves the end of its transaction to the attempt that it runs in. -/
def Body.LeavesEnd (body : Body C V α) : Prop := ∀ n a, (body n a).Along (Shared.Conduct a.tx)

/-- An attempt that has opened a transaction, and what came of it. -/
structure Made (α : Type) where
  tx : TxId
  result : Except Error α

namespace Call

/-- The attempt that is made next, if it opens a transaction. -/
def made? (m : Manager) (name : TxName) (body : Body C V α) (c : Call C V) : Option (Made α) :=
  (c.shared.store.start m.options).1.toOption.map (fun tx => { tx, result := (c.attempt m name body).1.1 })

/-- A call since the repository was `r`: what was done with it, the attempts made, and the commit of one of them. -/
structure Traced (r : Repository C) (as : List (Action C)) (made : List (Made α)) (commit? : Option Commit)
    (c : Call C V) : Prop where
  inner : c.shared.store.inner = r.after as
  commits : r.commitsOf (made.map Made.tx) as = commit?.toList
  fresh : ∀ x ∈ made, r.lastTx < x.tx ∧ x.tx ≤ (r.after as).lastTx
  opened : c.opened.map Prod.fst = made.getLast?.map Made.tx
  waiting : ∀ tx callbacks, c.opened = some (tx, callbacks) → ∀ f ∈ callbacks, ∀ s, Shared.Conduct tx s (f s)
  gone : ∀ x ∈ made.dropLast, (r.after as).Gone x.tx

/-- The call has not touched its store. -/
structure Beside (c c' : Call C V) : Prop where
  store : c'.shared.store = c.shared.store
  opened : c'.opened = c.opened

omit [DecidableEq κ] in
theorem isPath_beside : IsPath (Beside (C := C) (V := V)) where
  refl _ := ⟨rfl, rfl⟩
  trans h h' := ⟨h'.store.trans h.store, h'.opened.trans h.opened⟩

theorem Traced.congr {r : Repository C} {as : List (Action C)} {made : List (Made α)} {commit? : Option Commit}
    {c c' : Call C V} (h : Traced r as made commit? c) (hinner : c'.shared.store.inner = c.shared.store.inner)
    (hopened : c'.opened = c.opened) : Traced r as made commit? c' where
  inner := hinner.trans h.inner
  commits := h.commits
  fresh := h.fresh
  opened := by rw [hopened, h.opened]
  waiting tx callbacks hw := h.waiting tx callbacks (hopened ▸ hw)
  gone := h.gone

theorem Traced.beside {r : Repository C} {as : List (Action C)} {made : List (Made α)} {commit? : Option Commit}
    {c c' : Call C V} (h : Traced r as made commit? c) (hc : Beside c c') : Traced r as made commit? c' :=
  h.congr (congrArg FaultyRepository.inner hc.store) hc.opened

omit [DecidableEq κ] in
theorem store_noteFailure (m : Manager) (n : Nat) (verdict : Verdict) (e : Error) (s : Shared C V) :
    (noteFailure m n verdict e s).store = s.store := by cases verdict <;> rfl

theorem along_hooks (m : Manager) (name : TxName) (body : Body C V α) : (hooks m name body).Along Beside where
  succeeded _ _ := ⟨rfl, rfl⟩
  failed n verdict e c := ⟨store_noteFailure m n verdict e c.shared, rfl⟩
  slept _ _ := ⟨rfl, rfl⟩
  interrupted _ _ _ := ⟨rfl, rfl⟩
  exhausted _ _ _ := ⟨rfl, rfl⟩

/-- What lets go of the last transaction. -/
def releases (c : Call C V) : List (Action C) := c.opened.toList.map (fun o => .release o.1)

theorem inner_releaseOpened (c : Call C V) :
    c.releaseOpened.shared.store.inner = c.shared.store.inner.after c.releases := by
  unfold releaseOpened releases
  cases c.opened with
  | none => rfl
  | some o => rfl

/-- **An attempt fails to start, or it opens the next transaction, lets go of the last one and runs.** -/
theorem attempt_cases (m : Manager) (name : TxName) (body : Body C V α) (c : Call C V) :
    (c.made? m name body = none ∧ (∃ e, (c.attempt m name body).1.1 = .error e) ∧
      (c.attempt m name body).2.shared.store.inner = c.shared.store.inner ∧
      (c.attempt m name body).2.opened = c.opened) ∨
    ∃ tx n s, tx = c.shared.store.inner.lastTx + 1 ∧
      s.store.inner = (c.shared.store.inner.next (.start m.options)).after c.releases ∧
      let run := (Shared.handle tx).attempt m.options (body n { tx, name }) s
      c.made? m name body = some { tx, result := run.result } ∧ (c.attempt m name body).1.1 = run.result ∧
        (c.attempt m name body).2.shared.store = run.state.store ∧
        (c.attempt m name body).2.opened = some (tx, run.atEnd) := by
  have hstart : c.shared.onStore (fun store => store.start m.options) =
    ((c.shared.store.start m.options).1, { c.shared with store := (c.shared.store.start m.options).2 }) := rfl
  have hcases := c.shared.store.start_cases m.options
  unfold made? attempt
  rw [hstart]
  generalize c.shared.store.start m.options = started at hcases
  obtain ⟨answer, store⟩ := started
  rcases hcases with ⟨⟨e, rfl⟩, hinner⟩ | ⟨rfl, hinner⟩
  · exact .inl ⟨rfl, ⟨e, rfl⟩, hinner, rfl⟩
  · refine .inr ⟨_, _, ({ c with shared := { c.shared with store } }.releaseOpened).shared.enter, rfl, ?_, rfl, rfl,
      rfl, rfl⟩
    rw [← hinner]
    exact inner_releaseOpened { c with shared := { c.shared with store } }

omit [DecidableEq κ] in
theorem ne_commit_of_mem_releases {c : Call C V} {a : Action C} (ha : a ∈ c.releases) {tx : TxId} : a ≠ .commit tx := by
  obtain ⟨o, -, rfl⟩ := List.mem_map.1 ha
  nofun

theorem commits_releases (c : Call C V) (r : Repository C) : r.commits c.releases = [] := by
  unfold releases
  cases c.opened <;> rfl

section

variable {r : Repository C} {as : List (Action C)} {made : List (Made α)} {c : Call C V}

theorem Traced.gone_releases {commit? : Option Commit} (h : Traced r as made commit? c) {q : Repository C}
    (hq : q.Sound) (hgone : ∀ x ∈ made.dropLast, q.Gone x.tx) (hused : ∀ x ∈ made, x.tx ≤ q.lastTx) :
    ∀ x ∈ made, (q.after c.releases).Gone x.tx := by
  intro x hx
  by_cases hlast : some x = made.getLast?
  · have ho := h.opened
    rw [← hlast, Option.map_some, Option.map_eq_some_iff] at ho
    obtain ⟨o, ho, htx⟩ := ho
    have hreleases : c.releases = [.release x.tx] := by
      unfold releases
      rw [ho, ← htx]
      rfl
    rw [hreleases]
    exact Repository.gone_release (hused x hx)
  · exact (hgone x (List.mem_dropLast_of_mem_of_ne_getLast? hx hlast)).after c.releases hq

theorem Traced.gone_reopened {commit? : Option Commit} (hr : r.Sound) (h : Traced r as made commit? c) (o : TxOptions) :
    ∀ x ∈ made, (((r.after as).next (.start o)).after c.releases).Gone x.tx :=
  h.gone_releases (Repository.sound_next (Repository.sound_after hr as) (.start o))
    (fun x hx => (h.gone x hx).next (Repository.sound_after hr as) _)
    (fun x hx => Nat.le_trans (h.fresh x hx).2 (Repository.lastTx_next ..))

theorem commitsOf_concat_of_gone (hr : r.Sound) (hgone : ∀ x ∈ made, r.Gone x.tx) (tx : TxId) (as : List (Action C)) :
    r.commitsOf (made.map Made.tx ++ [tx]) as = r.commitsOf [tx] as := by
  refine Repository.commitsOf_concat_of_eq_nil (Repository.commitsOf_of_gone hr (fun id hid => ?_) as) tx
  obtain ⟨x, hx, rfl⟩ := List.mem_map.1 hid
  exact hgone x hx

theorem Traced.opens (hr : r.Sound) (h : Traced r as made none c) (o : TxOptions) {tx : TxId}
    (htx : tx = (r.after as).lastTx + 1) {bs : List (Action C)} {commit? : Option Commit} (result : Except Error α)
    {c' : Call C V} (hinner : c'.shared.store.inner = (((r.after as).next (.start o)).after c.releases).after bs)
    (hcommits : (((r.after as).next (.start o)).after c.releases).commitsOf [tx] bs = commit?.toList)
    {callbacks : List (Shared C V → Shared C V)} (hopened : c'.opened = some (tx, callbacks))
    (hwaiting : ∀ f ∈ callbacks, ∀ s, Shared.Conduct tx s (f s)) :
    Traced r (as ++ .start o :: (c.releases ++ bs)) (made ++ [⟨tx, result⟩]) commit? c' := by
  have hsound := Repository.sound_next (Repository.sound_after hr as) (.start o)
  have hgone := h.gone_reopened hr o
  have hstarted : ((r.after as).next (.start o)).lastTx = tx := htx.symm
  have hquiet : r.commitsOf [tx] as = [] := by
    refine Repository.commitsOf_of_lt hr fun id hid => ?_
    rw [List.mem_singleton.1 hid, htx]
    exact Nat.lt_succ_self _
  -- the transaction before is let go of only now, between the start of this one and what its code does
  generalize hq : ((r.after as).next (.start o)).after c.releases = q at hinner hcommits hgone
  have hrun : r.after (as ++ .start o :: (c.releases ++ bs)) = q.after bs := by
    rw [Repository.after_append, Repository.after, Repository.after_append, hq]
  have hle : tx ≤ (q.after bs).lastTx := by
    rw [← hstarted, ← hq]
    exact Nat.le_trans (Repository.lastTx_after ..) (Repository.lastTx_after ..)
  have hqs : q.Sound := hq ▸ Repository.sound_after hsound c.releases
  constructor
  · rw [hinner, hrun]
  · have hrest := (commitsOf_concat_of_gone hqs hgone tx bs).trans hcommits
    have hbetween : (r.after as).commitsOf (made.map Made.tx ++ [tx]) (.start o :: c.releases) = [] := by
      rw [Repository.commitsOf, Repository.commits, commits_releases]
      rfl
    rw [List.map_append, ← List.cons_append, ← List.append_assoc, Repository.commitsOf_append,
      Repository.commitsOf_append]
    rw [Repository.after_append, Repository.after, hq]
    rw [List.map_singleton, hbetween, hrest, Repository.commitsOf_concat_of_eq_nil h.commits, hquiet]
    rfl
  · intro x hx
    rw [hrun]
    rcases List.mem_append.1 hx with hx | hx
    · exact ⟨(h.fresh x hx).1, ((hgone x hx).after bs hqs).used⟩
    · rw [List.mem_singleton.1 hx]
      refine ⟨?_, hle⟩
      show r.lastTx < tx
      rw [htx]
      exact Nat.lt_succ_of_le (Repository.lastTx_after ..)
  · rw [hopened, List.getLast?_concat]
    rfl
  · intro tx' callbacks' ho
    rw [hopened] at ho
    cases ho
    exact hwaiting
  · intro x hx
    rw [List.dropLast_concat] at hx
    rw [hrun]
    exact (hgone x hx).after bs hqs

/-- A call has come to a result, and one of the attempts made has committed if the result stands for a commit: the
last one, which came to the same result. -/
def Settled (r : Repository C) (o : TxOptions) (made : List (Made α)) (result : Except Error α) (c : Call C V) : Prop :=
  ∃ as commit?, Traced r as made commit? c ∧ commit?.isSome = o.publishes result ∧
    ∀ k ∈ commit?, made.getLast? = some { tx := k.tx, result }

theorem sound_opened {q : Repository C} (hr : r.Sound) {o : TxOptions} {tx : TxId} (htx : tx = (r.after as).lastTx + 1)
    (hq : q = ((r.after as).next (.start o)).after c.releases) : q.Sound ∧ tx ≤ q.lastTx := by
  subst hq
  refine ⟨Repository.sound_after (Repository.sound_next (Repository.sound_after hr as) _) _, ?_⟩
  rw [htx]
  exact Repository.lastTx_after c.releases ((r.after as).next (.start o))

/-- **An attempt commits its transaction if it counts, and else none.** -/
theorem Traced.attempt (hr : r.Sound) {m : Manager} {name : TxName} {body : Body C V α} (hbody : body.LeavesEnd)
    (h : Traced r as made none c) :
    Settled r m.options (made ++ (c.made? m name body).toList) (c.attempt m name body).1.1
      (c.attempt m name body).2 := by
  have hcases := attempt_cases m name body c
  generalize c.made? m name body = made? at hcases ⊢
  generalize c.attempt m name body = answer at hcases ⊢
  obtain ⟨⟨result, commitAttempted⟩, c'⟩ := answer
  dsimp only at hcases ⊢
  rcases hcases with ⟨rfl, ⟨e, rfl⟩, hinner, hopened⟩ | ⟨tx, n, s, htx, hs, rfl, rfl, hstore, hopened⟩
  · refine ⟨as, none, ?_, rfl, nofun⟩
    rw [Option.toList_none, List.append_nil]
    exact h.congr hinner hopened
  · rw [h.inner] at hs htx
    obtain ⟨hsound, hused⟩ := sound_opened hr htx hs
    obtain ⟨hwaiting, bs, commit?, hinner, hcommits, hcounts⟩ :=
      Shared.attempt_spec m.options (hbody n { tx, name }) hsound hused
    rw [hs] at hinner hcommits
    rw [← hstore] at hinner
    refine ⟨_, commit?, h.opens hr m.options htx _ hinner hcommits hopened hwaiting, hcounts, fun k hk => ?_⟩
    have hk : k.tx ∈ [tx] := Repository.tx_mem_of_mem_commitsOf (hcommits ▸ Option.mem_toList.2 hk)
    rw [Option.toList_some, List.getLast?_concat, ← List.mem_singleton.1 hk]

/-- The attempts of a loop that open a transaction. -/
def madeFrom (m : Manager) (name : TxName) (body : Body C V α) (left n : Nat) (c : Call C V) : List (Made α) :=
  ((hooks m name body).trail m.options left n c).flatMap (fun c => (c.made? m name body).toList)

/-- **The attempts of a loop commit once if its result stands for a commit, and else never.** -/
theorem Traced.loop (hr : r.Sound) {m : Manager} (name : TxName) {body : Body C V α} (hbody : body.LeavesEnd)
    (left n : Nat) (h : Traced r as made none c) :
    Settled r m.options (made ++ c.madeFrom m name body left n) ((hooks m name body).loop m.options left n c).1
      ((hooks m name body).loop m.options left n c).2 := by
  induction left using Nat.strongRecOn generalizing n as made c with
  | _ left ih =>
  obtain ⟨as₁, commit?, h₁, hcounts, hlast⟩ := h.attempt hr hbody
  have hattempt : ((hooks m name body).attempt c).1 = (c.attempt m name body).1 := rfl
  have hbeside : Beside (c.attempt m name body).2 ((hooks m name body).attempt c).2 := ⟨rfl, rfl⟩
  unfold madeFrom
  rcases RetryHooks.loop_cases isPath_beside (along_hooks m name body) m.options left n c with
    ⟨result, c', hloop, htrail, hc, hresult⟩ | ⟨e, left', c', rfl, herror, hc, hloop, htrail⟩
  · rw [hattempt] at hresult
    rw [hloop, htrail, List.flatMap_singleton]
    refine ⟨as₁, commit?, h₁.beside (isPath_beside.trans hbeside hc), ?_, fun k hk => ?_⟩
    · rw [hcounts]
      unfold TxOptions.publishes
      rw [hresult]
    · rw [hk] at hcounts
      rw [TxOptions.eq_of_publishes hcounts.symm hresult]
      exact hlast k hk
  · rw [hattempt] at herror
    rw [herror] at hcounts
    obtain rfl := Option.isSome_eq_false_iff.1 hcounts |> Option.isNone_iff_eq_none.1
    have hrest := ih left' (Nat.lt_succ_self left') (n + 1) (h₁.beside (isPath_beside.trans hbeside hc))
    rw [hloop, htrail, List.flatMap_cons, ← List.append_assoc]
    exact hrest

/-- The callbacks for the end of a call commit none of its transactions, and leave the last one its end. -/
theorem Traced.callbacks {commit? : Option Commit} (hr : r.Sound) (h : Traced r as made commit? c) :
    ∃ bs, (TxHandle.runCallbacks ((c.opened.map Prod.snd).getD []) c.shared).store.inner = r.after (as ++ bs) ∧
      (r.after as).commitsOf (made.map Made.tx) bs = [] ∧ ∀ x ∈ made.getLast?, ∀ b ∈ bs, b.Respects x.tx := by
  have hopened := h.opened
  cases ho : c.opened with
  | none =>
    rw [ho, Option.map_none, eq_comm, Option.map_eq_none_iff, List.getLast?_eq_none_iff] at hopened
    subst hopened
    refine ⟨[], ?_, rfl, fun x hx => by cases hx⟩
    rw [List.append_nil]
    exact h.inner
  | some o =>
    obtain ⟨tx, callbacks⟩ := o
    rw [ho, Option.map_some, eq_comm, Option.map_eq_some_iff] at hopened
    obtain ⟨last, hlast, htx⟩ := hopened
    dsimp only at htx
    subst htx
    have hused : last.tx ≤ c.shared.store.inner.lastTx := h.inner ▸ (h.fresh last (List.mem_of_getLast? hlast)).2
    obtain ⟨bs, hbs, hrespects⟩ := TxHandle.along_runCallbacks (Shared.isPath_conduct last.tx) (h.waiting _ _ ho)
      c.shared (h.inner ▸ Repository.sound_after hr as) hused
    refine ⟨bs, by rw [Repository.after_append, ← h.inner, ← hbs]; rfl, ?_, fun x hx => ?_⟩
    · rw [← List.dropLast_append_getLast? last hlast, List.map_append, List.map_singleton,
        commitsOf_concat_of_gone (Repository.sound_after hr as) h.gone, Repository.commitsOf_of_respects hrespects]
    · rw [hlast] at hx
      cases hx
      exact hrespects

/-- **A call leaves none of its transactions behind.** -/
theorem Traced.finish {commit? : Option Commit} (hr : r.Sound) (h : Traced r as made commit? c) :
    ∃ bs, c.finish.store.inner = r.after (as ++ bs) ∧ r.commitsOf (made.map Made.tx) (as ++ bs) = commit?.toList ∧
      (∀ x ∈ made, r.lastTx < x.tx ∧ (r.after (as ++ bs)).Gone x.tx) ∧
      ∀ x ∈ made.getLast?, ∀ b ∈ bs, b ≠ .commit x.tx := by
  obtain ⟨bs, hbs, hcommits, hrespects⟩ := h.callbacks hr
  have hinner : c.finish.store.inner = r.after (as ++ (bs ++ c.releases)) := by
    rw [← List.append_assoc, Repository.after_append, ← hbs]
    exact inner_releaseOpened (c.mapShared (TxHandle.runCallbacks ((c.opened.map Prod.snd).getD [])))
  have hsound := Repository.sound_after hr (as ++ bs)
  refine ⟨bs ++ c.releases, hinner, ?_, fun x hx => ⟨(h.fresh x hx).1, ?_⟩, fun x hx b hb => ?_⟩
  · rw [Repository.commitsOf_append, Repository.commitsOf_append, hcommits, h.commits, Repository.commitsOf,
      commits_releases]
    simp
  · rw [← List.append_assoc, Repository.after_append]
    refine h.gone_releases hsound (fun y hy => ?_) (fun y hy => ?_) x hx
    · rw [Repository.after_append]
      exact (h.gone y hy).after bs (Repository.sound_after hr as)
    · rw [Repository.after_append]
      exact Nat.le_trans (h.fresh y hy).2 (Repository.lastTx_after ..)
  · rcases List.mem_append.1 hb with hb | hb
    · exact (hrespects x hx b hb).ne_commit
    · exact ne_commit_of_mem_releases hb

end

end Call

namespace Manager

/-- The state in which a call begins, if the policy lets it through. -/
def admit? (m : Manager) (site : CallSite) (s : Shared C V) : Option (Shared C V) :=
  if s.inTransaction then
    match m.separatePolicy with
    | .allow => some s
    | .log => some (s.report .warn (besideWarning (m.nameAt site)) [])
    | .strict => none
  else some s

theorem tx_of_admit?_eq_none {m : Manager} {site : CallSite} {s : Shared C V} (h : m.admit? site s = none)
    (body : Body C V α) : m.tx site body s = (.error (.nestedTransaction (m.nameAt site).logName), s) := by
  unfold admit? at h
  unfold tx
  split at h
  · rename_i hin
    rw [if_pos hin]
    cases hp : m.separatePolicy with
    | strict => rfl
    | _ => rw [hp] at h; cases h
  · cases h

theorem tx_of_admit?_eq_some {m : Manager} {site : CallSite} {s s' : Shared C V} (h : m.admit? site s = some s')
    (body : Body C V α) : m.tx site body s = m.call (m.nameAt site) body s' ∧ s'.store = s.store := by
  unfold admit? at h
  unfold tx
  split at h
  · rename_i hin
    rw [if_pos hin]
    cases hp : m.separatePolicy with
    | strict => rw [hp] at h; cases h
    | _ => rw [hp] at h; cases h; exact ⟨rfl, rfl⟩
  · rename_i hin
    rw [if_neg hin]
    cases h
    exact ⟨rfl, rfl⟩

/-- The call before its first attempt. -/
def begin (m : Manager) (site : CallSite) (s : Shared C V) : Call C V :=
  { shared := s.openSpan m.options.isolation (m.nameAt site).logName }

/-- A call goes through its attempts, then through what is left for its end, and reports. -/
theorem call_eq (m : Manager) (site : CallSite) (body : Body C V α) (s : Shared C V) :
    m.call (m.nameAt site) body s =
      (((Call.hooks m (m.nameAt site) body).loop m.options m.retries 1 (m.begin site s)).1,
        (((Call.hooks m (m.nameAt site) body).loop m.options m.retries 1 (m.begin site s)).2.finish.mapStats
          TxStats.recordCall).closeSpan) := rfl

omit [DecidableEq κ] in
theorem inner_reported (s : Shared C V) : (s.mapStats TxStats.recordCall).closeSpan.store.inner = s.store.inner := rfl

/-- The attempts of a call that open a transaction. -/
def made (m : Manager) (site : CallSite) (body : Body C V α) (s : Shared C V) : List (Made α) :=
  match m.admit? site s with
  | none => []
  | some s => (m.begin site s).madeFrom m (m.nameAt site) body m.retries 1

theorem traced_begin (m : Manager) (site : CallSite) (s : Shared C V) :
    (m.begin site s).Traced s.store.inner [] ([] : List (Made α)) none where
  inner := rfl
  commits := rfl
  fresh _ hx := (List.not_mem_nil hx).elim
  opened := rfl
  waiting _ _ h := by cases h
  gone _ hx := (List.not_mem_nil hx).elim

/-- **What a call does to the repository.** -/
theorem tx_spec (m : Manager) (site : CallSite) {body : Body C V α} (hbody : body.LeavesEnd) {s : Shared C V}
    (hs : s.store.inner.Sound) :
    ∃ (as : List (Action C)) (commit? : Option Commit), (m.tx site body s).2.store.inner = s.store.inner.after as ∧
      commit?.isSome = m.options.publishes (m.tx site body s).1 ∧
      (∀ k ∈ commit?, (m.made site body s).getLast? = some { tx := k.tx, result := (m.tx site body s).1 }) ∧
      s.store.inner.commitsOf ((m.made site body s).map Made.tx) as = commit?.toList ∧
      ∀ x ∈ m.made site body s, s.store.inner.lastTx < x.tx ∧ (s.store.inner.after as).Gone x.tx := by
  unfold made
  cases h : m.admit? site s with
  | none =>
    rw [tx_of_admit?_eq_none h body]
    exact ⟨[], none, rfl, rfl, fun _ hk => (Option.not_mem_none _ hk).elim, rfl, fun x hx => (List.not_mem_nil hx).elim⟩
  | some s' =>
    obtain ⟨htx, hstore⟩ := tx_of_admit?_eq_some h body
    rw [← hstore] at hs ⊢
    rw [htx, call_eq, inner_reported]
    obtain ⟨as, commit?, htraced, hcounts, hlast⟩ :=
      (m.traced_begin site s').loop hs (m.nameAt site) hbody m.retries 1
    obtain ⟨bs, hinner, hcommits, hgone, -⟩ := htraced.finish hs
    exact ⟨as ++ bs, commit?, hinner, hcounts, hlast, hcommits, hgone⟩

end Manager

end EntityStore

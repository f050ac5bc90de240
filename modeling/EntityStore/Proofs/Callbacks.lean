import EntityStore.Proofs.Retries
/-!
# When the callbacks of a call run

The code of an attempt puts callbacks off, for after the commit and for the end of the call.  `Call.attempt_runs` says
which of them an attempt runs: those for after the commit if it publishes, on the state that its commit has left, and
else none.  Those for the end wait in the call until another attempt opens a transaction (`Manager.opened_stage`).
To see that nothing runs twice or besides, each callback is taken to leave a note, and `Manager.callbacks_of_tx` reads
from the journal which ones have run, and in what order.
-/
namespace EntityStore

variable {X : Scalars} {κ : Type} [DecidableEq κ] {C : κ → EntityType X} {V α : Type}

namespace Shared

/-- No code has run. -/
def RunsNothing (s s' : Shared C V) : Prop := ∃ store stats events, s' = { s with store, stats, events }

omit [DecidableEq κ] in
theorem isPath_runsNothing : IsPath (RunsNothing (C := C) (V := V)) where
  refl _ := ⟨_, _, _, rfl⟩
  trans h h' := by
    obtain ⟨store, stats, events, rfl⟩ := h
    obtain ⟨store', stats', events', rfl⟩ := h'
    exact ⟨store', stats', events', rfl⟩

omit [DecidableEq κ] in
theorem RunsNothing.journal {s s' : Shared C V} (h : RunsNothing s s') : s'.journal = s.journal := by
  obtain ⟨store, stats, events, rfl⟩ := h
  rfl

theorem runsNothing_handle (tx : TxId) : (handle (C := C) (V := V) tx).Along RunsNothing where
  commit _ := ⟨_, _, _, rfl⟩
  rollback _ := ⟨_, _, _, rfl⟩
  report _ _ _ := ⟨_, _, _, rfl⟩

/-- The callback leaves one of the notes in question whenever it runs, and that is `v`. -/
def Leaves (own : V → Bool) (v : V) (f : Shared C V → Shared C V) : Prop :=
  ∀ s, (f s).journal.filter own = s.journal.filter own ++ [v]

omit [DecidableEq κ] in
theorem filter_journal_runCallbacks {own : V → Bool} {mark : (Shared C V → Shared C V) → V}
    {callbacks : List (Shared C V → Shared C V)} (h : ∀ f ∈ callbacks, Leaves own (mark f) f) (s : Shared C V) :
    (TxHandle.runCallbacks callbacks s).journal.filter own = s.journal.filter own ++ callbacks.map mark := by
  induction callbacks generalizing s with
  | nil => exact (List.append_nil _).symm
  | cons f callbacks ih =>
    show (TxHandle.runCallbacks callbacks (f s)).journal.filter own = _
    rw [ih (fun g hg => h g (List.mem_cons_of_mem f hg)), h f List.mem_cons_self s, List.append_assoc]
    rfl

theorem commit_of_commitNow {tx : TxId} {logOnSuccess : Bool} {s : Shared C V}
    (h : ((handle tx).commitNow logOnSuccess s).1 = .ok ()) :
    s.store.commit tx = (.ok (), ((handle tx).commitNow logOnSuccess s).2.store) := by
  have hcommit : (handle tx).commit s = ((s.store.commit tx).1, { s with store := (s.store.commit tx).2 }) := rfl
  unfold TxHandle.commitNow at h ⊢
  rw [hcommit] at h ⊢
  generalize s.store.commit tx = r at h ⊢
  obtain ⟨answer, store⟩ := r
  cases answer with
  | error e => cases h
  | ok u =>
    dsimp only
    split <;> rfl

/-- **An attempt runs the callbacks for after its commit if it publishes**, and hands on those for the end. -/
theorem attempt_runs (tx : TxId) (o : TxOptions) (body : Step α (Shared C V)) (s : Shared C V) :
    let ran := body.runAll s
    let ended := (handle tx).attempt o body s
    ended.atEnd = ran.later.atEnd ∧ ∃ s', RunsNothing ran.state s' ∧
      (o.publishes ended.result = true → ran.state.store.commit tx = (.ok (), s'.store)) ∧
      ended.state =
        TxHandle.runCallbacks (if o.publishes ended.result then ran.later.afterCommit else []) s' := by
  have hR := isPath_runsNothing (C := C) (V := V)
  have hp := runsNothing_handle (C := C) (V := V) tx
  dsimp only
  rcases (handle tx).attempt_cases o body s with ⟨e, -, h⟩ | ⟨a, -, hdry, h⟩ | ⟨e, -, -, h⟩ | ⟨a, hdry, hcommit, h⟩
  · rw [h]
    exact ⟨rfl, _, TxHandle.along_rollbackAfter hR hp e _, (fun he => by cases he), rfl⟩
  · have hnone : ∀ result : Except Error α, o.publishes result = false := fun _ => by simp [TxOptions.publishes, hdry]
    rw [h, hnone]
    exact ⟨rfl, _, TxHandle.along_rollbackDryRun hR hp _, (fun he => by cases he), rfl⟩
  · rw [h]
    exact ⟨rfl, _, TxHandle.along_commitNow hR hp o.logOnSuccess _, (fun he => by cases he), rfl⟩
  · have hsome : o.publishes (.ok a : Except Error α) = true := by
      unfold TxOptions.publishes
      rw [hdry]
      rfl
    rw [h, hsome]
    exact ⟨rfl, _, TxHandle.along_commitNow hR hp o.logOnSuccess _, fun _ => commit_of_commitNow hcommit, rfl⟩

end Shared

/-- Code that leaves none of the notes in question, neither by itself nor in its callbacks before the commit, and that
puts off only callbacks which leave one each. -/
def Body.Marks (own : V → Bool) (mark : (Shared C V → Shared C V) → V) (body : Body C V α) : Prop :=
  ∀ n a s, ((body n a).runAll s).state.journal.filter own = s.journal.filter own ∧
    ∀ f ∈ ((body n a).runAll s).later.afterCommit ++ ((body n a).runAll s).later.atEnd, Shared.Leaves own (mark f) f

/-- What the code of an attempt has come to before the attempt ends, in the transaction `tx`. -/
structure Ran (C : κ → EntityType X) (V α : Type) where
  tx : TxId
  outcome : Outcome α (Shared C V) Unit

namespace Call

/-- What the code comes to in the next attempt, if that opens a transaction. -/
def ran? (m : Manager) (name : TxName) (body : Body C V α) (c : Call C V) : Option (Ran C V α) :=
  (c.shared.store.start m.options).1.toOption.map
    (fun tx => ⟨tx, (body (c.bodies + 1) { tx, name }).runAll (c.entered m)⟩)

theorem journal_entered (m : Manager) (c : Call C V) : (c.entered m).journal = c.shared.journal :=
  (started_releaseOpened { c with shared := { c.shared with store := (c.shared.store.start m.options).2 } }).2

/-- **An attempt that cannot start runs nothing; else its callbacks take the place of those that waited.** -/
theorem attempt_runs (m : Manager) (name : TxName) (body : Body C V α) (c : Call C V) :
    match c.ran? m name body with
    | none => m.options.publishes (c.attempt m name body).1.1 = false ∧
      Shared.RunsNothing c.shared (c.attempt m name body).2.shared ∧ (c.attempt m name body).2.opened = c.opened
    | some ran => (c.attempt m name body).2.opened = some (ran.tx, ran.outcome.later.atEnd) ∧
      ∃ s, Shared.RunsNothing ran.outcome.state s ∧
        (m.options.publishes (c.attempt m name body).1.1 = true →
          ran.outcome.state.store.commit ran.tx = (.ok (), s.store)) ∧
        (c.attempt m name body).2.shared = (TxHandle.runCallbacks
          (if m.options.publishes (c.attempt m name body).1.1 then ran.outcome.later.afterCommit else []) s).leave := by
  rw [attempt_eq]
  unfold ran?
  cases (c.shared.store.start m.options).1 with
  | error e => exact ⟨rfl, ⟨_, _, _, rfl⟩, rfl⟩
  | ok tx =>
    obtain ⟨hatEnd, s, hs, hcommit, hstate⟩ :=
      Shared.attempt_runs tx m.options (body (c.bodies + 1) { tx, name }) (c.entered m)
    exact ⟨congrArg (fun l => some (tx, l)) hatEnd, s, hs, hcommit, congrArg Shared.leave hstate⟩

end Call

theorem Trial.Stops.publishes {o : TxOptions} {max i : Nat} {t : Trial α} {result : Except Error α}
    (h : t.Stops o max i result) : o.publishes result = o.publishes t.result := by
  cases h with
  | value h => rw [h]
  | fatal h => rw [h]
  | refused h => rw [h]; rfl
  | interrupted h => rw [h]; rfl
  | exhausted h => rw [h]; rfl

theorem Trial.Ends.publishes {o : TxOptions} {max i : Nat} {t : Trial α} {result : Except Error α} {hangs : Bool}
    (h : t.Ends o max i result hangs) : o.publishes result = o.publishes t.result := by
  cases h with
  | stops h => exact h.publishes
  | hangs h e =>
    obtain ⟨e', h, -⟩ := h
    rw [h]
    rfl

theorem Trial.publishes_of_not_ends {o : TxOptions} {max i : Nat} {t : Trial α}
    (h : ∀ result hangs, ¬ t.Ends o max i result hangs) : o.publishes t.result = false := by
  cases hresult : t.result with
  | error e => rfl
  | ok a => exact absurd (.stops (.value hresult)) (h (.ok a) false)

namespace Manager

variable (m : Manager) (site : CallSite) (body : Body C V α) (s : Shared C V)

/-- What the code comes to in the attempt after `k` others, if that opens a transaction. -/
def ran? (k : Nat) : Option (Ran C V α) := (m.stage site body s k).ran? m (m.nameAt site) body

/-- The callbacks for the end of the call that the last of the first `k` attempts has left which opened a transaction. -/
def waiting (k : Nat) : List (Shared C V → Shared C V) :=
  (((List.range k).filterMap (m.ran? site body s)).getLast?.map (fun ran => ran.outcome.later.atEnd)).getD []

/-- The callbacks for after its commit that the attempt after `k` others runs. -/
def published (k : Nat) : List (Shared C V → Shared C V) :=
  if m.options.publishes (m.trial site body s k).result then
    ((m.ran? site body s k).map (fun ran => ran.outcome.later.afterCommit)).getD []
  else []

theorem opened_stage (k : Nat) : (m.stage site body s k).opened =
    ((List.range k).filterMap (m.ran? site body s)).getLast?.map (fun ran => (ran.tx, ran.outcome.later.atEnd)) := by
  induction k with
  | zero => rfl
  | succ k ih =>
    have hattempt := Call.attempt_runs m (m.nameAt site) body (m.stage site body s k)
    have hran : m.ran? site body s k = (m.stage site body s k).ran? m (m.nameAt site) body := rfl
    rw [(m.idles_stage_succ ..).opened, (m.reports_ended ..).opened, List.range_succ, List.filterMap_append]
    cases h : m.ran? site body s k with
    | none =>
      rw [← hran, h] at hattempt
      rw [hattempt.2.2, ih, List.filterMap_cons_none h, List.filterMap_nil, List.append_nil]
    | some ran =>
      rw [← hran, h] at hattempt
      rw [hattempt.1, List.filterMap_cons_some h, List.filterMap_nil, List.getLast?_concat]
      rfl

theorem opened_eq_waiting {k : Nat} {c : Call C V} (h : (m.ended site body s k).Idles c) :
    (c.opened.map Prod.snd).getD [] = m.waiting site body s (k + 1) := by
  unfold waiting
  rw [h.opened, ← (m.idles_stage_succ ..).opened, opened_stage, Option.map_map]
  rfl

variable {m site body s} {own : V → Bool} {mark : (Shared C V → Shared C V) → V}

theorem journal_ended (hbody : body.Marks own mark) (k : Nat) :
    (m.ended site body s k).shared.journal.filter own =
      (m.stage site body s k).shared.journal.filter own ++ (m.published site body s k).map mark := by
  have hattempt := Call.attempt_runs m (m.nameAt site) body (m.stage site body s k)
  have hresult : (m.trial site body s k).result = ((m.stage site body s k).attempt m (m.nameAt site) body).1.1 := rfl
  have hran : m.ran? site body s k = (m.stage site body s k).ran? m (m.nameAt site) body := rfl
  obtain ⟨stats, events, hreported⟩ := (m.reports_ended site body s k).shared
  rw [hreported]
  unfold published
  rw [hresult, hran]
  cases h : (m.stage site body s k).ran? m (m.nameAt site) body with
  | none =>
    rw [h] at hattempt
    obtain ⟨hnone, hsame, -⟩ := hattempt
    rw [hnone]
    exact (congrArg (List.filter own) hsame.journal).trans (List.append_nil _).symm
  | some ran =>
    rw [h] at hattempt
    obtain ⟨-, s', hs', -, hstate⟩ := hattempt
    obtain ⟨tx, -, rfl⟩ := Option.map_eq_some_iff.1 h
    obtain ⟨hcode, hcallbacks⟩ := hbody ((m.stage site body s k).bodies + 1) { tx, name := m.nameAt site }
      ((m.stage site body s k).entered m)
    rw [Call.journal_entered] at hcode
    rw [hstate, ← hcode, ← hs'.journal]
    refine Shared.filter_journal_runCallbacks (fun f hf => ?_) s'
    split at hf
    · exact hcallbacks f (List.mem_append_left _ hf)
    · exact (List.not_mem_nil hf).elim

omit [DecidableEq κ] in
theorem journal_admit? {s' : Shared C V} (h : m.admit? site s = some s') : s'.journal = s.journal := by
  unfold admit? at h
  split at h
  · split at h <;> cases h <;> rfl
  · cases h; rfl

theorem journal_stage (hbody : body.Marks own mark) {k : Nat}
    (hnone : ∀ j < k, m.published site body s j = []) :
    (m.stage site body s k).shared.journal.filter own = s.journal.filter own := by
  induction k with
  | zero =>
    show ((m.admit? site s).getD s).journal.filter own = _
    cases h : m.admit? site s with
    | none => rfl
    | some s' => exact congrArg (List.filter own) (journal_admit? h)
  | succ k ih =>
    rw [(m.idles_stage_succ ..).journal, journal_ended hbody, hnone k (Nat.lt_succ_self k),
      ih fun j hj => hnone j (Nat.lt_succ_of_lt hj)]
    exact List.append_nil _

theorem published_eq_nil {k : Nat} (h : m.options.publishes (m.trial site body s k).result = false) :
    m.published site body s k = [] := by
  unfold published
  rw [h]
  rfl

/-- An attempt that publishes has committed, and then run the callbacks that were put off for that. -/
theorem published_eq (k : Nat) (h : m.options.publishes (m.trial site body s k).result = true) :
    ∃ ran s', m.ran? site body s k = some ran ∧ m.published site body s k = ran.outcome.later.afterCommit ∧
      ran.outcome.state.store.commit ran.tx = (.ok (), s'.store) ∧ Shared.RunsNothing ran.outcome.state s' ∧
      Shared.RunsNothing (TxHandle.runCallbacks (m.published site body s k) s').leave
        (m.ended site body s k).shared := by
  have hattempt := Call.attempt_runs m (m.nameAt site) body (m.stage site body s k)
  have hresult : (m.trial site body s k).result = ((m.stage site body s k).attempt m (m.nameAt site) body).1.1 := rfl
  obtain ⟨stats, events, hreported⟩ := (m.reports_ended site body s k).shared
  unfold published
  rw [h, hreported]
  rw [hresult] at h
  cases hran : m.ran? site body s k with
  | none =>
    rw [show (m.stage site body s k).ran? m (m.nameAt site) body = none from hran] at hattempt
    rw [hattempt.1] at h
    cases h
  | some ran =>
    rw [show (m.stage site body s k).ran? m (m.nameAt site) body = some ran from hran] at hattempt
    obtain ⟨-, s', hs', hcommit, hstate⟩ := hattempt
    rw [h] at hstate
    exact ⟨ran, s', rfl, rfl, hcommit h, hs', by rw [hstate]; exact ⟨_, _, _, rfl⟩⟩

theorem journal_finish {c : Call C V} (hwaiting : ∀ f ∈ (c.opened.map Prod.snd).getD [], Shared.Leaves own (mark f) f) :
    c.finish.journal.filter own =
      c.shared.journal.filter own ++ ((c.opened.map Prod.snd).getD []).map mark := by
  unfold Call.finish
  dsimp only
  rw [(Call.started_releaseOpened _).2]
  exact Shared.filter_journal_runCallbacks hwaiting c.shared

theorem leaves_of_mem_waiting (hbody : body.Marks own mark) (k : Nat) :
    ∀ f ∈ m.waiting site body s k, Shared.Leaves own (mark f) f := by
  intro f hf
  unfold waiting at hf
  cases h : ((List.range k).filterMap (m.ran? site body s)).getLast? with
  | none =>
    rw [h] at hf
    exact (List.not_mem_nil hf).elim
  | some ran =>
    rw [h] at hf
    obtain ⟨j, -, hran⟩ := List.mem_filterMap.1 (List.mem_of_getLast? h)
    obtain ⟨tx, -, rfl⟩ := Option.map_eq_some_iff.1 hran
    exact (hbody _ _ _).2 f (List.mem_append_right _ hf)

/-- **A call runs the callbacks that its attempts have put off once each, in order, and no others.**  It ends with an
attempt, the first one to end it.  If its result stands for a commit, the callbacks that this attempt has put off for
after the commit run on the state which the commit has left.  After the last attempt, whatever its outcome, those for
the end run that the last transaction to be opened has left, unless the call hangs.  Notes tell that no other callback
has run. -/
theorem callbacks_of_tx (m : Manager) (site : CallSite) (body : Body C V α) (s : Shared C V) :
    match m.admit? site s with
    | none => m.tx site body s = (.error (.nestedTransaction (m.nameAt site).logName), s)
    | some _ => ∃ k < m.maxAttempts, ∃ committed hangs c,
      (∀ j < k, ∀ result hangs, ¬ (m.trial site body s j).Ends m.options m.maxAttempts (j + 1) result hangs) ∧
      (m.trial site body s k).Ends m.options m.maxAttempts (k + 1) (m.tx site body s).1 hangs ∧
      c.shared.hung = ((m.ended site body s k).shared.hung || hangs) ∧
      (m.options.publishes (m.tx site body s).1 = false → committed = []) ∧
      (m.options.publishes (m.tx site body s).1 = true → ∃ ran s', m.ran? site body s k = some ran ∧
        committed = ran.outcome.later.afterCommit ∧
        ran.outcome.state.store.commit ran.tx = (.ok (), s'.store) ∧ Shared.RunsNothing ran.outcome.state s' ∧
        Shared.RunsNothing (TxHandle.runCallbacks committed s').leave (m.ended site body s k).shared) ∧
      (m.ended site body s k).Idles c ∧
      (c.opened.map Prod.snd).getD [] = m.waiting site body s (k + 1) ∧
      (m.tx site body s).2 = (c.finish.mapStats TxStats.recordCall).closeSpan ∧
      ∀ own mark, body.Marks own mark → (m.tx site body s).2.journal.filter own =
        s.journal.filter own ++ committed.map mark ++ (m.waiting site body s (k + 1)).map mark := by
  cases hlets : m.admit? site s with
  | none => exact tx_of_admit?_eq_none hlets body
  | some _ =>
    obtain ⟨k, hk, hangs, c, hbefore, hends, hhung, hidles, hstate⟩ := m.call_ends site body s
    have htx : m.tx site body s = m.call (m.nameAt site) body ((m.admit? site s).getD s) := by
      rw [hlets]
      exact (tx_of_admit?_eq_some hlets body).1
    rw [← htx] at hends hstate
    have hopened := opened_eq_waiting m site body s hidles
    have hpublishes := hends.publishes
    refine ⟨k, hk, m.published site body s k, hangs, c, hbefore, hends, hhung,
      fun h => published_eq_nil (hpublishes ▸ h), fun h => published_eq k (hpublishes ▸ h), hidles, hopened, hstate,
      fun own mark hbody => ?_⟩
    have hnone : ∀ j < k, m.published site body s j = [] :=
      fun j hj => published_eq_nil (Trial.publishes_of_not_ends (hbefore j hj))
    have hfinish : c.finish.journal.filter own = c.shared.journal.filter own ++ (m.waiting site body s (k + 1)).map mark :=
      hopened ▸ journal_finish (hopened ▸ leaves_of_mem_waiting hbody (k + 1))
    rw [hstate]
    calc c.finish.journal.filter own
        = (m.ended site body s k).shared.journal.filter own ++ (m.waiting site body s (k + 1)).map mark := by
          rw [hfinish, hidles.journal]
      _ = s.journal.filter own ++ (m.published site body s k).map mark ++ (m.waiting site body s (k + 1)).map mark := by
          rw [journal_ended hbody, journal_stage hbody hnone]

end Manager

namespace Sample

/-- Code that fails when it runs for the first time, and whose callbacks note their number after that of the run. -/
def deferring : Body (catalog "sample") Nat Nat := fun n _ s => {
  result := if n = 1 then .error (.retryable "busy" "try again" .immediate) else .ok n
  state := s
  later := {
    afterCommit := [fun s => s.note (10 * n), fun s => s.note (10 * n + 1)]
    atEnd := [fun s => s.note (10 * n + 2), fun s => s.note (10 * n + 3)] }
  rounds := .done }

/-- The note that a callback leaves first. -/
def firstNote (f : Shared (catalog "sample") Nat → Shared (catalog "sample") Nat) : Nat := (f {}).journal.headD 0

end Sample

theorem Sample.marks_deferring : Sample.deferring.Marks (fun _ => true) Sample.firstNote := by
  have hnote : ∀ v, Shared.Leaves (fun _ => true) v (fun s : Shared (catalog "sample") Nat => s.note v) := by
    intro v s
    simp only [List.filter_true]
    rfl
  intro n a s
  have hran : (deferring n a).runAll s =
      ⟨(deferring n a s).result, s, (deferring n a s).later, ()⟩ := by
    unfold Step.runAll
    by_cases hn : n = 1 <;> simp [deferring, hn, Rounds.run]
    rfl
  rw [hran]
  refine ⟨rfl, fun f hf => ?_⟩
  simp only [deferring, List.cons_append, List.nil_append, List.mem_cons, List.not_mem_nil, or_false] at hf
  rcases hf with rfl | rfl | rfl | rfl <;> exact hnote _

open Sample in
theorem Manager.callbacks_of_tx_after_retry :
    let site : CallSite := ⟨"sample", 1⟩
    deferring.Marks (fun _ => true) firstNote ∧ (patient.tx site deferring {}).1 = .ok 2 ∧
      (patient.tx site deferring {}).2.journal = [20, 21, 22, 23] ∧
      ∃ k < patient.maxAttempts, ∃ committed : List (Shared (catalog "sample") Nat → Shared (catalog "sample") Nat),
        (patient.tx site deferring {}).2.journal =
          committed.map firstNote ++ (patient.waiting site deferring {} (k + 1)).map firstNote := by
  intro site
  have hjournal : (patient.tx site deferring {}).2.journal = [20, 21, 22, 23] := by decide +kernel
  have hcall := patient.callbacks_of_tx site deferring {}
  rw [show patient.admit? site ({} : Shared (catalog "sample") Nat) = some {} from rfl] at hcall
  obtain ⟨k, hk, committed, hangs, c, -, -, -, -, -, -, -, -, hnotes⟩ := hcall
  have hown := hnotes _ _ marks_deferring
  rw [List.filter_true] at hown
  exact ⟨marks_deferring, by decide +kernel, hjournal, k, hk, committed, hown⟩

end EntityStore

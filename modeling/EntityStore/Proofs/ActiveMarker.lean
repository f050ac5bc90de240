import EntityStore.Proofs.BeforeCommit
import EntityStore.Proofs.Callbacks
import EntityStore.Proofs.Nesting
/-!
# Where the marker is up

A call runs code of its own at four places: the body, the callbacks before the commit, those after it, and those at the
end of the call.  `MadeCall.Runs` follows that code instruction by instruction, through every attempt.  An attempt raises
the marker before its body and lowers it when the callbacks after its commit have returned, so that of the four places
only the last one has it down (`MadeCall.active_marker`): a callback after the commit still counts as part of a
transaction, and a strict manager turns its calls away.
-/
namespace EntityStore

variable {X : Scalars}

/-! ## What has been put off -/

section

variable {F σ α : Type}

/-- Of the callbacks that are left for later, each has the property. -/
def Later.All (P : (σ → σ) → Prop) (l : Later σ) : Prop := (∀ f ∈ l.afterCommit, P f) ∧ ∀ f ∈ l.atEnd, P f

variable {P : (σ → σ) → Prop} {R : σ → σ → Prop} {cb : Callbacks F σ}

theorem Later.all_empty : ({} : Later σ).All P := ⟨nofun, nofun⟩

theorem Later.All.append {a b : Later σ} (ha : a.All P) (hb : b.All P) : (a.append b).All P :=
  ⟨fun f hf => (List.mem_append.1 hf).elim (ha.1 f) (hb.1 f), fun f hf => (List.mem_append.1 hf).elim (ha.2 f) (hb.2 f)⟩

namespace Callbacks

variable {queue : List F} {s s' : σ} {ran : List (F × σ)} {result : Except Error Unit}

theorem Serves.all_later (hcb : ∀ f s, (cb.run f s).later.All P) (h : cb.Serves queue s ran result s') :
    ((cb.waiting queue).run s).later.All P := by
  have hcons : ∀ f queue s, (cb.waiting (f :: queue)).run s = Rounds.resume (cb.run f s) (cb.waiting queue).append :=
    fun f queue s => Rounds.run_append_round (cb.run f) (cb.waiting queue) s
  induction h with
  | nil s => exact Later.all_empty
  | @error f s e queue h =>
    rw [hcons, Rounds.resume, h]
    exact hcb f s
  | @next f s s' queue ran result h hrest ih =>
    rw [waiting_append] at ih
    rw [hcons, Rounds.resume, h, cb.rounds_run f s]
    exact (hcb f s).append ih

theorem Serves.along_ran (hR : IsPath R) (hcb : ∀ f s, R s (cb.run f s).state) (h : cb.Serves queue s ran result s') :
    ∀ y ∈ ran, R s y.2 := by
  induction h with
  | nil s => exact nofun
  | @error f s e queue h =>
    intro y hy
    rw [List.mem_singleton.1 hy]
    exact hR.refl s
  | @next f s s' queue ran result h hrest ih =>
    intro y hy
    rcases List.mem_cons.1 hy with rfl | hy
    · exact hR.refl _
    · exact hR.trans (hcb f s) (ih y hy)

theorem Runs.along_ran (hR : IsPath R) (hcb : ∀ f s, R s (cb.run f s).state) {body : Step α σ}
    (hbody : R s (body s).state) {value : Except Error α} (h : cb.Runs body queue s ran value s') :
    ∀ y ∈ ran, R s y.2 := by
  cases h with
  | failed h => exact nofun
  | served h hserves => exact fun y hy => hR.trans hbody (hserves.along_ran hR hcb y hy)

/-- **What an attempt puts off, its code or one of its callbacks before the commit has put off.** -/
theorem all_later_runAll (hcb : ∀ f s, (cb.run f s).later.All P) {body : Step α σ} (hbody : (body s).later.All P)
    (hqueue : (body s).rounds = cb.waiting queue) : (body.runAll s).later.All P := by
  unfold Step.runAll
  dsimp only
  cases (body s).result with
  | error e => exact hbody
  | ok a =>
    obtain ⟨ran, result, s', hserves⟩ := cb.exists_serves queue (body s).state
    exact hbody.append (hqueue ▸ hserves.all_later hcb)

end Callbacks

end

variable {κ : Type} [DecidableEq κ] {C : κ → EntityType X} {V : Type}

namespace Program

/-- What a program does outside of attempts. -/
def effect (q : Program C V .outside) (s : Shared C V) : Shared C V := (q.denote () s).state

theorem all_later_denote {p : Scope} (q : Program C V p) (c : p.Context) (s : Shared C V) :
    (q.denote c s).later.All (fun f => ∃ q, f = effect q) := by
  induction q generalizing s with
  | finish result => exact Later.all_empty
  | note v next ih => exact ih c _
  | askActive next ih => exact ih _ c s
  | cancel token next ih => exact ih c _
  | queueFaults faults next ih => exact ih c _
  | call m site body next ihbody ih => exact ih _ c _
  | aside w next ih => exact ih _ c _
  | work w next ih => exact ih _ c _
  | inspect next ih => exact ih _ c s
  | record level message next ih => exact ih c _
  | commit next ih => exact ih _ c _
  | rollback next ih => exact ih _ c _
  | beforeCommit callback next ihc ih => exact ih c s
  | afterCommit callback next ihc ih => exact ⟨List.forall_mem_cons.2 ⟨⟨callback, rfl⟩, (ih c s).1⟩, (ih c s).2⟩
  | atEnd callback next ihc ih => exact ⟨(ih c s).1, List.forall_mem_cons.2 ⟨⟨callback, rfl⟩, (ih c s).2⟩⟩

theorem all_later_runAll (q : Program C V .attempt) (a : Attempt) (s : Shared C V) :
    (Step.runAll (q.denote a) s).later.All (fun f => ∃ q, f = effect q) := by
  have hcb : ∀ (q : Program C V .attempt) s, ((callbacks a).run q s).later.All (fun f => ∃ q, f = effect q) :=
    fun q s => q.all_later_denote a s
  exact Callbacks.all_later_runAll hcb (q.all_later_denote a s) (q.rounds_denote a s)

end Program

/-! ## The code of a call -/

/-- A place in a call where code of its own runs. -/
inductive Station where
  | body
  | beforeCommit
  | afterCommit
  | atEnd
deriving DecidableEq

namespace MadeCall

variable (x : MadeCall C V)

/-- The program that runs in the attempt after `k` others. -/
def program (k : Nat) : Program C V .attempt := x.body ((x.stage k).bodies + 1)

/-- The state in which it starts. -/
def start (k : Nat) : Shared C V := (x.stage k).entered x.manager

/-- What it comes to before the attempt ends, together with its callbacks before the commit. -/
def code (k : Nat) (a : Attempt) : Outcome V (Shared C V) Unit := Step.runAll ((x.program k).denote a) (x.start k)

/-- The call gets as far as the attempt after `k` others, and that opens a transaction. -/
def Opens (k : Nat) (a : Attempt) : Prop :=
  x.Reaches k ∧ (x.stage k).run? x.manager (x.manager.nameAt x.site) = some a

/-- The call when no more attempts are to be made. -/
def ended : Call C V :=
  ((Call.hooks x.manager (x.manager.nameAt x.site) (fun n a => (x.body n).denote a)).run x.manager.options
    x.manager.retries (x.manager.begin x.site ((x.manager.admit? x.site x.before).getD x.before))).2

/-- The callbacks that wait for the end of the call when no more attempts are to be made. -/
def waiting : List (Shared C V → Shared C V) := (x.ended.opened.map Prod.snd).getD []

/-- Code of the call: at some place, so much of a program is left to run, in such a state. -/
inductive Runs : Station → {p : Scope} → Program C V p → p.Context → Shared C V → Prop
  | body {k : Nat} {a : Attempt} (hopens : x.Opens k a) : Runs .body (x.program k) a (x.start k)
  | beforeCommit {k : Nat} {a : Attempt} {ran : List (Program C V .attempt × Shared C V)} {value : Except Error V}
      {s s' : Shared C V} {q : Program C V .attempt} (hopens : x.Opens k a)
      (hruns : (Program.callbacks a).Runs ((x.program k).denote a) ((x.program k).registered a (x.start k)) (x.start k)
        ran value s')
      (hmem : (q, s) ∈ ran) : Runs .beforeCommit q a s
  /-- The commit has succeeded, and `first` have run. -/
  | afterCommit {k : Nat} {a : Attempt} {v : V} {s : Shared C V} {first rest : List (Shared C V → Shared C V)}
      {q : Program C V .outside} (hopens : x.Opens k a) (hcode : (x.code k a).result = .ok v)
      (hdry : x.manager.options.dryRun = false)
      (hcommit : (Shared.handle a.tx).commitNow x.manager.options.logOnSuccess (x.code k a).state = (.ok (), s))
      (hlater : (x.code k a).later.afterCommit = first ++ q.effect :: rest) :
      Runs .afterCommit q () (TxHandle.runCallbacks first s)
  | atEnd {first rest : List (Shared C V → Shared C V)} {q : Program C V .outside}
      (hwaiting : x.waiting = first ++ q.effect :: rest) :
      Runs .atEnd q () (TxHandle.runCallbacks first x.ended.shared)
  | next {station : Station} {p : Scope} {c : p.Context} {q q' : Program C V p} {s s' : Shared C V}
      (h : Runs station q c s) (hnext : q.next? c s = some (q', s')) : Runs station q' c s'

/-! ## The marker -/

theorem active_stage (k : Nat) : (x.stage k).shared.active = x.before.active :=
  Manager.active_stage x.steady_body x.manager x.site x.before k

theorem active_start (k : Nat) : (x.start k).active = x.before.active + 1 := by
  rw [start, Call.active_entered, x.active_stage]

theorem steady_code (k : Nat) (a : Attempt) :
    Shared.Steady (x.start k) (x.code k a).state ∧ (x.code k a).later.Along Shared.Steady :=
  ((x.program k).steady_denote a (x.start k)).runAll Shared.isPath_steady

theorem steady_before_ended : (∀ f ∈ x.waiting, ∀ s, Shared.Steady s (f s)) ∧ x.ended.shared.active = x.before.active := by
  let name := x.manager.nameAt x.site
  have hbegin : (x.manager.begin x.site ((x.manager.admit? x.site x.before).getD x.before)).shared.active =
      x.before.active := x.active_stage 0
  obtain ⟨hwaiting, hsteady⟩ := RetryHooks.along_loop Call.isPath_steady
    (Call.steady_hooks x.manager name (fun n a => (x.body n).denote a))
    (Call.steady_counted x.steady_body x.manager name) x.manager.options x.manager.retries 1
    (x.manager.begin x.site ((x.manager.admit? x.site x.before).getD x.before)) (fun f hf => (List.not_mem_nil hf).elim)
  exact ⟨hwaiting, hsteady.active.trans hbegin⟩

variable {x}

/-- **At every point of its code, a call has as many attempts under way as before, and one more in an attempt.** -/
theorem Runs.active {station : Station} {p : Scope} {q : Program C V p} {c : p.Context} {s : Shared C V}
    (h : x.Runs station q c s) : s.active = x.before.active + if station = .atEnd then 0 else 1 := by
  have hR := Shared.isPath_steady (C := C) (V := V)
  induction h with
  | @body k a hopens => exact x.active_start k
  | @beforeCommit k a ran value s s' q hopens hruns hmem =>
    have hsteady := hruns.along_ran hR (fun q s => (q.steady_denote a s).state)
      ((x.program k).steady_denote a (x.start k)).state _ hmem
    exact hsteady.active.trans (x.active_start k)
  | @afterCommit k a v s first rest q hopens hcode hdry hcommit hlater =>
    obtain ⟨hbefore, hputOff⟩ := x.steady_code k a
    have hcommitted : Shared.Steady (x.code k a).state s := by
      have := TxHandle.along_commitNow hR (Shared.steady_handle a.tx) x.manager.options.logOnSuccess (x.code k a).state
      rwa [hcommit] at this
    have hfirst := TxHandle.along_runCallbacks hR
      (fun f hf => hputOff.afterCommit f (hlater ▸ List.mem_append_left _ hf)) s
    exact (hfirst.active.trans (hcommitted.active.trans hbefore.active)).trans (x.active_start k)
  | @atEnd first rest q hwaiting =>
    obtain ⟨hsteady, hended⟩ := x.steady_before_ended
    have hfirst := TxHandle.along_runCallbacks hR (fun f hf => hsteady f (hwaiting ▸ List.mem_append_left _ hf))
      x.ended.shared
    exact hfirst.active.trans hended
  | next h hnext ih => exact (Program.active_of_next? hnext).trans ih

theorem exists_effect_of_mem_waiting (x : MadeCall C V) : ∀ f ∈ x.waiting, ∃ q, f = Program.effect q := by
  let name := x.manager.nameAt x.site
  let body : Body C V V := fun n a => (x.body n).denote a
  let Waits (c : Call C V) : Prop := ∀ f ∈ (c.opened.map Prod.snd).getD [], ∃ q, f = Program.effect q
  have hR : IsPath (fun c c' => Waits c → Waits c') := ⟨fun _ h => h, fun h h' hc => h' (h hc)⟩
  have hhooks : (Call.hooks x.manager name body).Along (fun c c' => Waits c → Waits c') :=
    (Call.idles_hooks x.manager name body).mono fun h hc f hf => hc f (h.opened ▸ hf)
  have hattempt : ∀ c, Waits c → Waits ((Call.hooks x.manager name body).attempt c).2 := by
    intro c hc
    show Waits (c.attempt x.manager name body).2
    rw [Call.attempt_eq]
    cases (c.shared.store.start x.manager.options).1 with
    | error e => exact hc
    | ok tx =>
      have hatEnd := (Shared.attempt_runs tx x.manager.options (body (c.bodies + 1) ⟨tx, name⟩) (c.entered x.manager)).1
      intro f hf
      exact ((x.body (c.bodies + 1)).all_later_runAll ⟨tx, name⟩ (c.entered x.manager)).2 f (hatEnd ▸ hf)
  exact RetryHooks.along_loop hR hhooks hattempt x.manager.options x.manager.retries 1 _
    fun f hf => (List.not_mem_nil hf).elim

/-- **Of the code of an outermost call, all but the callbacks at its end runs with the marker up.**  It is up at every
point of the body, of the callbacks before the commit and of those after it, in every attempt, and a call made there is
rejected exactly if its policy is strict.  It is down at every point of the callbacks for the end of the call, from
which no call is rejected, and so it is between the attempts and after the call.  There is no other code: what is put
off for after a commit and for the end of the call is programs. -/
theorem active_marker (x : MadeCall C V) (hidle : x.before.inTransaction = false) :
    (∀ {station : Station} {p : Scope} {q : Program C V p} {c : p.Context} {s : Shared C V}, x.Runs station q c s →
      (s.inTransaction = true ↔ station ≠ .atEnd) ∧
        ∀ y : MadeCall C V, y.before = s → (y.Rejected ↔ station ≠ .atEnd ∧ y.manager.separatePolicy = .strict)) ∧
      (∀ k, (x.stage k).shared.inTransaction = false) ∧ x.answer.2.inTransaction = false ∧
      (∀ k a, ∀ f ∈ (x.code k a).later.afterCommit, ∃ q, f = Program.effect q) ∧
      x.answer.2 = (x.ended.finish.mapStats TxStats.recordCall).closeSpan ∧
      ∀ f ∈ x.waiting, ∃ q, f = Program.effect q := by
  have hbefore : x.before.active = 0 := Nat.eq_zero_of_not_pos (of_decide_eq_false hidle)
  have hmarker : ∀ {s : Shared C V}, s.active = x.before.active → s.inTransaction = false := by
    intro s hs
    exact decide_eq_false (hs ▸ hbefore ▸ Nat.lt_irrefl 0)
  refine ⟨fun {station p q c s} h => ?_, fun k => hmarker (x.active_stage k),
    hmarker (Manager.steady_tx x.steady_body x.manager x.site x.before).active,
    fun k a => ((x.program k).all_later_runAll a (x.start k)).1, ?_, x.exists_effect_of_mem_waiting⟩
  · have hactive := h.active
    rw [hbefore] at hactive
    have hup : s.inTransaction = true ↔ station ≠ .atEnd := by
      unfold Shared.inTransaction
      rw [hactive, decide_eq_true_iff]
      split <;> simp [*]
    refine ⟨hup, fun y hy => ?_⟩
    rw [y.rejected_iff, hy, hup]
  · have hlets : x.manager.admit? x.site x.before = some x.before := by
      unfold Manager.admit?
      rw [hidle]
      rfl
    unfold ended
    rw [hlets]
    exact congrArg Prod.snd (Manager.tx_of_admit?_eq_some hlets (fun n a => (x.body n).denote a)).1

end MadeCall

namespace Sample

/-- A callback that notes whether the marker is up, and whether a strict manager lets a call through. -/
def asking : Program (catalog "sample") Nat .outside :=
  .askActive fun up => .note (if up then 1 else 0)
    (.call wary ⟨"callback", 2⟩ (fun n => .finish (.ok n))
      (fun answer => .note (if answer.toOption.isSome then 1 else 0) (.finish (.ok 0))))

/-- A call that asks after its commit and at its end. -/
def asked : MadeCall (catalog "sample") Nat :=
  ⟨0, patient, ⟨"outer", 1⟩, fun _ => .afterCommit asking (.atEnd asking (.finish (.ok 7))), {}⟩

/-- The call that the callback makes from the state `s`. -/
def fromCallback (s : Shared (catalog "sample") Nat) : MadeCall (catalog "sample") Nat :=
  ⟨0, wary, ⟨"callback", 2⟩, fun n => .finish (.ok n), s⟩

end Sample

open Sample in
theorem MadeCall.active_marker_asked :
    asked.before.inTransaction = false ∧ ∃ s, asked.Runs .atEnd asking () s ∧
      s.inTransaction = false ∧ ¬(fromCallback s).Rejected ∧ asked.answer.1 = .ok 7 := by
  have hidle : asked.before.inTransaction = false := rfl
  have hruns : asked.Runs .atEnd asking () (TxHandle.runCallbacks [] asked.ended.shared) :=
    .atEnd (show asked.waiting = [] ++ [asking.effect] from rfl)
  obtain ⟨hup, hrejected⟩ := (asked.active_marker hidle).1 hruns
  refine ⟨hidle, _, hruns, eq_false_of_ne_true fun h => hup.1 h rfl, fun h => ?_, rfl⟩
  exact ((hrejected (fromCallback _) rfl).1 h).1 rfl

open Sample in
/-- The marker is still up in a callback after the commit, and the strict call that it makes is rejected. -/
theorem MadeCall.marker_outlives_commit :
    asked.before.inTransaction = false ∧ (∃ s, asked.Runs .afterCommit asking () s ∧
      s.inTransaction = true ∧ (fromCallback s).Rejected) ∧ asked.answer.2.journal = [1, 0, 0, 1] := by
  let a : Attempt := ⟨1, patient.nameAt ⟨"outer", 1⟩⟩
  let closed := (Shared.handle a.tx).commitNow patient.options.logOnSuccess (asked.code 0 a).state
  have hcommit : closed = (.ok (), closed.2) := rfl
  have hruns : asked.Runs .afterCommit asking () (TxHandle.runCallbacks [] closed.2) :=
    .afterCommit (k := 0) (a := a) (v := 7) ⟨⟨rfl, nofun⟩, rfl⟩ rfl rfl hcommit rfl
  refine ⟨rfl, ⟨_, hruns, rfl, ?_⟩, by decide +kernel⟩
  exact (MadeCall.rejected_iff _).2 ⟨rfl, rfl⟩

end EntityStore

import EntityStore.Proofs.OneCommit
import EntityStore.Proofs.Tables
import EntityStore.Proofs.Versions
/-!
# Dry runs

A dry run ends each of its attempts in a rollback, so that none of its transactions commits, and none that queues its
writes applies one (`Call.Dry`).  What others publish meanwhile comes on top of what was there before
(`Chronicle.ledger_along`); apart from that, the version and the rows are what they were, and so are the tables if the
writes are queued (`Manager.dry_run_publishes_nothing`).  A write that is applied at once makes its table, and the
rollback leaves it there (`Manager.dry_run_leaves_a_table`).
-/
namespace EntityStore

variable {X : Scalars} {κ : Type} [DecidableEq κ] {C : κ → EntityType X} {V α : Type}

/-! ## Transactions that queue their writes -/

namespace Repository

/-- The number was used, and if there is a transaction under it, that queues its writes. -/
structure Defers (r : Repository C) (id : TxId) : Prop where
  used : id ≤ r.lastTx
  delayed : ∀ s, r.session? id = some s → s.tx.options.isImmediate = false

theorem exists_session_of_writesTo {id : TxId} {home : Nat} {k : κ} (r : Repository C) (a : Action C)
    (h : WritesTo id home k r a) : ∃ s, r.session? id = some s := h.imp fun _ h => h.2.1

variable {r : Repository C} {id : TxId}

theorem defers_start (r : Repository C) {o : TxOptions} (ho : o.isImmediate = false) :
    (r.next (.start o)).Defers (r.lastTx + 1) := by
  refine ⟨Nat.le_refl _, fun s hs => ?_⟩
  have hs : (r.start o).2.session? (r.lastTx + 1) = some s := hs
  rw [session?_start, if_pos rfl] at hs
  cases hs
  exact ho

theorem Defers.next (h : r.Defers id) (hr : r.Sound) (a : Action C) : (r.next a).Defers id where
  used := Nat.le_trans h.used (r.lastTx_next a)
  delayed := kept_next (P := fun tx => tx.options.isImmediate = false) hr h.used h.delayed fun s _ hd =>
    (a.advances_turn s).options ▸ hd

theorem Defers.after : ∀ (as : List (Action C)) {r : Repository C}, r.Defers id → r.Sound → (r.after as).Defers id
  | [], _, h, _ => h
  | a :: rest, _, h, hr => Defers.after rest (h.next hr a) (sound_next hr a)

/-- **What queues its writes applies none but in a commit.** -/
theorem Defers.not_writesTo {home : Nat} {k : κ} : ∀ {as : List (Action C)} {r : Repository C}, r.Defers id → r.Sound →
    (∀ a ∈ as, a ≠ .commit id) → ¬r.Happens (WritesTo id home k) as
  | [], _, _, _, _, hhappens => hhappens
  | a :: rest, r, h, hr, hne, hhappens => by
    rcases hhappens with ⟨s, hact, hs, -, hw⟩ | hrest
    · cases a with
      | statement other op =>
        have himmediate := hw.2.2.1
        rw [h.delayed s hs] at himmediate
        cases himmediate
      | commit other =>
        cases hact
        exact hne _ List.mem_cons_self rfl
      | _ => exact hw.elim
    · exact (h.next hr a).not_writesTo (sound_next hr a) (fun b hb => hne b (List.mem_cons_of_mem a hb)) hrest

end Repository

/-! ## The attempts of a dry run -/

/-- **An attempt of a dry run does not commit**, whatever its code comes to. -/
theorem Shared.dry_attempt_spec {tx : TxId} {o : TxOptions} (hdry : o.dryRun = true) {body : Step α (Shared C V)}
    (hbody : body.Along (Conduct tx)) {s : Shared C V} (hs : s.store.inner.Sound) (htx : tx ≤ s.store.inner.lastTx) :
    let e := (handle tx).attempt o body s
    (∀ f ∈ e.atEnd, ∀ s, Conduct tx s (f s)) ∧
      ∃ as : List (Action C), e.state.store.inner = s.store.inner.after as ∧ ∀ a ∈ as, a ≠ .commit tx := by
  obtain ⟨hran, hlater⟩ := (hbody s).runAll (isPath_conduct tx)
  obtain ⟨as, has, hrespects⟩ := hran hs htx
  have hcases := (handle tx).attempt_cases o body s
  dsimp only at hcases ⊢
  generalize body.runAll s = ran at hlater has hcases
  have hnext : ran.state.store.inner.next (.rollback tx) = s.store.inner.after (as ++ [.rollback tx]) := by
    rw [has, Repository.after_concat]
  have hne : ∀ a ∈ as ++ [.rollback tx], a ≠ .commit tx :=
    List.forall_mem_append.2 ⟨fun a ha => (hrespects a ha).ne_commit, fun a ha => List.mem_singleton.1 ha ▸ nofun⟩
  rcases hcases with ⟨err, -, he⟩ | ⟨a, -, -, he⟩ | ⟨err, hd, -, -⟩ | ⟨a, hd, -, -⟩
  · rw [he]
    exact ⟨hlater.atEnd, _, (inner_rollbackAfter tx err ran.state).trans hnext, hne⟩
  · rw [he]
    exact ⟨hlater.atEnd, _, (inner_rollbackDryRun tx ran.state).trans hnext, hne⟩
  · rw [hdry] at hd
    cases hd
  · rw [hdry] at hd
    cases hd

namespace Call

/-- A call of dry runs since the repository was `r`: none of its transactions has committed, and if they queue their
writes, they have applied none. -/
structure Dry (o : TxOptions) (r : Repository C) (as : List (Action C)) (made : List (Made α)) (c : Call C V) : Prop where
  traced : Traced r as made none c
  defers : o.isImmediate = false → ∀ x ∈ made, (r.after as).Defers x.tx
  apart : o.isImmediate = false → ∀ x ∈ made, ∀ home k, ¬r.Happens (Repository.WritesTo x.tx home k) as

variable {o : TxOptions} {r : Repository C} {as : List (Action C)} {made : List (Made α)} {c c' : Call C V}

theorem Dry.beside (h : Dry o r as made c) (hc : Beside c c') : Dry o r as made c' :=
  ⟨h.traced.beside hc, h.defers, h.apart⟩

theorem Dry.opens (hr : r.Sound) (h : Dry o r as made c) {tx : TxId} (htx : tx = (r.after as).lastTx + 1)
    {bs : List (Action C)} (result : Except Error α)
    (hinner : c'.shared.store.inner = (((r.after as).next (.start o)).after c.releases).after bs)
    (hne : ∀ b ∈ bs, b ≠ .commit tx) {callbacks : List (Shared C V → Shared C V)}
    (hopened : c'.opened = some (tx, callbacks)) (hwaiting : ∀ f ∈ callbacks, ∀ s, Shared.Conduct tx s (f s)) :
    Dry o r (as ++ .start o :: (c.releases ++ bs)) (made ++ [⟨tx, result⟩]) c' := by
  have has : (r.after as).Sound := Repository.sound_after hr as
  have hstarted : ((r.after as).next (.start o)).Sound := Repository.sound_next has (.start o)
  have hdefers : o.isImmediate = false → ((r.after as).next (.start o)).Defers tx := fun hi =>
    htx ▸ Repository.defers_start (r.after as) hi
  refine ⟨h.traced.opens hr o htx result hinner (Repository.commitsOf_of_forall_ne hne) hopened hwaiting,
    fun hi x hx => ?_, fun hi x hx home k => ?_⟩
  · rw [Repository.after_append]
    rcases List.mem_append.1 hx with hx | hx
    · exact (h.defers hi x hx).after _ has
    · exact List.mem_singleton.1 hx ▸ (hdefers hi).after _ hstarted
  · rw [Repository.happens_append]
    rcases List.mem_append.1 hx with hx | hx
    · -- an earlier transaction of the call is released before the attempt begins
      have hopening : ∀ a ∈ .start o :: c.releases, a ≠ .commit x.tx :=
        List.forall_mem_cons.2 ⟨nofun, fun a ha => ne_commit_of_mem_releases ha⟩
      rw [← List.cons_append, Repository.happens_append]
      refine not_or.2 ⟨h.apart hi x hx home k, not_or.2 ⟨(h.defers hi x hx).not_writesTo has hopening, ?_⟩⟩
      exact Repository.not_happens_of_gone Repository.exists_session_of_writesTo bs
        (Repository.sound_after has _) (h.traced.gone_reopened hr o x hx)
    · -- the new one does nothing before its start, and no commit after it
      obtain rfl := List.mem_singleton.1 hx
      have hrest : ∀ a ∈ c.releases ++ bs, a ≠ .commit tx :=
        List.forall_mem_append.2 ⟨fun a ha => ne_commit_of_mem_releases ha, hne⟩
      refine not_or.2 ⟨?_, not_or.2 ⟨?_, (hdefers hi).not_writesTo hstarted hrest⟩⟩
      · exact Repository.not_happens_of_lt Repository.exists_session_of_writesTo as hr (htx ▸ Nat.lt_succ_self _)
      · rintro ⟨s, hact, -⟩
        cases hact

theorem Dry.attempt (hr : r.Sound) {m : Manager} (hdry : m.options.dryRun = true) (name : TxName) {body : Body C V α}
    (hbody : body.LeavesEnd) (h : Dry m.options r as made c) :
    ∃ as', Dry m.options r as' (made ++ (c.made? m name body).toList) (c.attempt m name body).2 := by
  have hcases := attempt_cases m name body c
  generalize c.made? m name body = made? at hcases ⊢
  generalize c.attempt m name body = answer at hcases ⊢
  obtain ⟨⟨result, commitAttempted⟩, c'⟩ := answer
  dsimp only at hcases ⊢
  rcases hcases with ⟨rfl, -, hinner, hopened⟩ | ⟨tx, n, s, htx, hs, rfl, -, hstore, hopened⟩
  · rw [Option.toList_none, List.append_nil]
    exact ⟨as, h.traced.congr hinner hopened, h.defers, h.apart⟩
  · rw [h.traced.inner] at hs htx
    obtain ⟨hsound, hused⟩ := sound_opened hr htx hs
    obtain ⟨hwaiting, bs, hinner, hne⟩ := Shared.dry_attempt_spec hdry (hbody n { tx, name }) hsound hused
    rw [hs, ← hstore] at hinner
    exact ⟨_, h.opens hr htx _ hinner hne hopened hwaiting⟩

theorem Dry.loop (hr : r.Sound) {m : Manager} (hdry : m.options.dryRun = true) (name : TxName) {body : Body C V α}
    (hbody : body.LeavesEnd) (left n : Nat) (h : Dry m.options r as made c) :
    ∃ as', Dry m.options r as' (made ++ c.madeFrom m name body left n)
      ((hooks m name body).loop m.options left n c).2 := by
  induction left using Nat.strongRecOn generalizing n as made c with
  | _ left ih =>
  obtain ⟨as₁, h₁⟩ := h.attempt hr hdry name hbody
  have hbeside : Beside (c.attempt m name body).2 ((hooks m name body).attempt c).2 := ⟨rfl, rfl⟩
  unfold madeFrom
  rcases RetryHooks.loop_cases isPath_beside (along_hooks m name body) m.options left n c with
    ⟨result, c', hloop, htrail, hc, -⟩ | ⟨e, left', c', rfl, -, hc, hloop, htrail⟩
  · rw [hloop, htrail, List.flatMap_singleton]
    exact ⟨as₁, h₁.beside (isPath_beside.trans hbeside hc)⟩
  · rw [hloop, htrail, List.flatMap_cons, ← List.append_assoc]
    exact ih left' (Nat.lt_succ_self left') (n + 1) (h₁.beside (isPath_beside.trans hbeside hc))

theorem Dry.finish (hr : r.Sound) (h : Dry o r as made c) :
    ∃ bs, c.finish.store.inner = r.after (as ++ bs) ∧ r.commitsOf (made.map Made.tx) (as ++ bs) = [] ∧
      (∀ x ∈ made, r.lastTx < x.tx ∧ (r.after (as ++ bs)).Gone x.tx) ∧
      (o.isImmediate = false → ∀ x ∈ made, ∀ home k, ¬r.Happens (Repository.WritesTo x.tx home k) (as ++ bs)) := by
  obtain ⟨bs, hinner, hcommits, hgone, hne⟩ := h.traced.finish hr
  have has : (r.after as).Sound := Repository.sound_after hr as
  refine ⟨bs, hinner, hcommits, hgone, fun hi x hx home k => ?_⟩
  rw [Repository.happens_append]
  refine not_or.2 ⟨h.apart hi x hx home k, ?_⟩
  by_cases hlast : some x = made.getLast?
  · exact (h.defers hi x hx).not_writesTo has (hne x hlast.symm)
  · exact Repository.not_happens_of_gone Repository.exists_session_of_writesTo bs has
      (h.traced.gone x (List.mem_dropLast_of_mem_of_ne_getLast? hx hlast))

end Call

/-- **What a call of dry runs does to the repository.** -/
theorem Manager.dry_run_spec {m : Manager} (hdry : m.options.dryRun = true) (site : CallSite) {body : Body C V α}
    (hbody : body.LeavesEnd) {s : Shared C V} (hs : s.store.inner.Sound) :
    ∃ as : List (Action C), (m.tx site body s).2.store.inner = s.store.inner.after as ∧
      s.store.inner.commitsOf ((m.made site body s).map Made.tx) as = [] ∧
      (∀ x ∈ m.made site body s, s.store.inner.lastTx < x.tx ∧ (s.store.inner.after as).Gone x.tx) ∧
      (m.options.isImmediate = false → ∀ x ∈ m.made site body s, ∀ home k,
        ¬s.store.inner.Happens (Repository.WritesTo x.tx home k) as) := by
  unfold made
  cases h : m.admit? site s with
  | none =>
    rw [tx_of_admit?_eq_none h body]
    exact ⟨[], rfl, rfl, fun x hx => (List.not_mem_nil hx).elim, fun _ x hx => (List.not_mem_nil hx).elim⟩
  | some s' =>
    obtain ⟨htx, hstore⟩ := tx_of_admit?_eq_some h body
    rw [← hstore] at hs ⊢
    rw [htx]
    have hbegin : (m.begin site s').Dry m.options s'.store.inner [] ([] : List (Made α)) :=
      ⟨m.traced_begin site s', fun _ x hx => (List.not_mem_nil hx).elim, fun _ x hx => (List.not_mem_nil hx).elim⟩
    obtain ⟨as, hdone⟩ := hbegin.loop hs hdry (m.nameAt site) hbody m.retries 1
    obtain ⟨bs, hfinish⟩ := hdone.finish hs
    exact ⟨as ++ bs, hfinish⟩

/-! ## What others have published -/

namespace Chronicle

theorem ledger_note_of_forall_ne (ch : Chronicle C) (r : Repository C) {a : Action C} (ha : ∀ id, a ≠ .commit id)
    {home : Nat} (hhome : home ≤ r.retired.length) : (ch.note r a).ledger home = ch.ledger home := by
  cases a with
  | commit id => exact absurd rfl (ha id)
  | statement id op =>
    unfold note
    cases hs : r.session? id with
    | none => simp only [hs]
    | some s =>
      simp only [hs, noteStatement]
      split <;> rfl
  | loadSnapshot sid =>
    unfold note
    dsimp only
    split
    · exact Function.update_of_ne (by omega) ..
    · rfl
  | _ => rfl

/-- **An action adds to the ledger of a storage what it publishes there**, and nothing else. -/
theorem ledger_note (ch : Chronicle C) {r : Repository C} (h : r.Sound) (a : Action C) {home : Nat}
    (hhome : home ≤ r.retired.length) :
    ∃ news : Ledger C, (ch.note r a).ledger home = news ++ ch.ledger home ∧
      (∀ p ∈ news, ∃ c, r.commit? a = some c ∧ c.tx = p.tx ∧ c.version = some p.version) ∧
      ((r.next a).storage home).version = (r.storage home).version + news.length := by
  have hquiet : (ch.note r a).ledger home = ch.ledger home →
      ((r.next a).storage home).version = (r.storage home).version →
      ∃ news : Ledger C, (ch.note r a).ledger home = news ++ ch.ledger home ∧
        (∀ p ∈ news, ∃ c, r.commit? a = some c ∧ c.tx = p.tx ∧ c.version = some p.version) ∧
        ((r.next a).storage home).version = (r.storage home).version + news.length := fun hledger hversion =>
    ⟨[], hledger, fun p hp => (List.not_mem_nil hp).elim, hversion⟩
  by_cases ha : ∀ id, a ≠ .commit id
  · refine hquiet (ch.ledger_note_of_forall_ne r ha hhome) ?_
    rcases Repository.storage_next h a hhome with ⟨hsame, -⟩ | ⟨id, s, -, hs, rfl, hstorage⟩
    · rw [hsame]
    · rw [hstorage, a.version_turn s fun id he => absurd he (ha id), Repository.storage_of_session? hs]
  · -- a commit adds to the ledger of its own storage only, and only if it publishes
    obtain ⟨id, rfl⟩ := not_forall_not.1 ha
    cases hs : r.session? id with
    | none =>
      refine hquiet ?_ (congrArg Storage.version (congrArg (·.storage home) (Repository.next_of_absent rfl hs)))
      simp only [note, hs]
    | some s =>
      obtain ⟨hid, -, -, -⟩ := h.session id s hs
      have hnote : ch.note r (.commit id) = ch.noteCommit s := by simp only [note, hs]
      have hversion := s.advances_commit.moves.version_le
      rcases Repository.storage_next h (.commit id) hhome with ⟨hsame, hnone⟩ | ⟨id', s', hact, hs', rfl, hstorage⟩
      · refine hquiet ?_ (congrArg Storage.version hsame)
        rw [hnote, noteCommit]
        split
        · exact Function.update_of_ne (hnone id s rfl hs).symm ..
        · rfl
      · cases hact
        cases hs.symm.trans hs'
        have hstorage : (r.next (.commit id)).storage s.tx.home = s.commit.2.storage := hstorage
        by_cases hlt : s.storage.version < s.commit.2.storage.version
        · refine ⟨[⟨s.commit.2.storage.version, s.tx.id, ch.effective s.tx.id⟩], ?_, fun p hp => ?_, ?_⟩
          · rw [hnote, noteCommit, if_pos hlt]
            exact Function.update_self ..
          · rw [List.mem_singleton.1 hp, Repository.commit?_commit, hs]
            exact ⟨_, Session.success?_of_lt hlt id, hid.symm, rfl⟩
          · rw [hstorage, s.version_commit id, Session.success?_of_lt hlt, Repository.storage_of_session? hs]
            rfl
        · refine hquiet ?_ ?_
          · rw [hnote, noteCommit, if_neg hlt]
          · rw [hstorage, ← Repository.storage_of_session? hs]
            omega

/-- **A run adds to the ledger of a storage what its commits publish there**, each as the next version. -/
theorem ledger_along {home : Nat} : ∀ (as : List (Action C)) (ch : Chronicle C) {r : Repository C}, r.Sound →
    home ≤ r.retired.length →
      ∃ news : Ledger C, (ch.along r as).ledger home = news ++ ch.ledger home ∧
        (∀ p ∈ news, ∃ c ∈ r.commits as, c.tx = p.tx ∧ c.version = some p.version) ∧
        ((r.after as).storage home).version = (r.storage home).version + news.length
  | [], ch, r, _, _ => ⟨[], rfl, fun p hp => (List.not_mem_nil hp).elim, rfl⟩
  | a :: rest, ch, r, h, hhome => by
    obtain ⟨news, hledger, hnews, hversion⟩ := ch.ledger_note h a hhome
    obtain ⟨later, hledger', hlater, hversion'⟩ := ledger_along rest (ch.note r a) (Repository.sound_next h a)
      (Nat.le_trans hhome (Repository.retired_length_next_le r a))
    refine ⟨later ++ news, ?_, fun p hp => ?_, ?_⟩
    · rw [List.append_assoc, ← hledger]
      exact hledger'
    · rcases List.mem_append.1 hp with hp | hp
      · obtain ⟨c, hc, hcp⟩ := hlater p hp
        exact ⟨c, List.mem_append_right _ hc, hcp⟩
      · obtain ⟨c, hc, hcp⟩ := hnews p hp
        exact ⟨c, List.mem_append_left _ (Option.mem_toList.2 hc), hcp⟩
    · rw [List.length_append, Repository.after, hversion', hversion]
      omega

end Chronicle

/-! ## What a dry run leaves -/

namespace Repository

/-- What a run of others beside the transactions `ids` has left in the storage in place `home`, which had the ledger `l`. -/
structure OnlyOthers (ids : List TxId) (immediate : Bool) (l : Ledger C) (r : Repository C) (as : List (Action C))
    (home : Nat) : Prop where
  /-- What is new is published by commits of others, each as the next version. -/
  published : ∃ news : Ledger C,
    (∀ p ∈ news, p.tx ∉ ids ∧ ∃ c ∈ r.commits as, c.tx = p.tx ∧ c.version = some p.version) ∧
    ((r.after as).storage home).version = (r.storage home).version + news.length ∧
    ∀ u k c, (r.storage home).published u k c = l.row u k c ∧
      ((r.after as).storage home).published u k c = (news ++ l).row u k c
  /-- The new tables are those that others have applied a write to, or `ids` if they apply their writes at once. -/
  tables : (r.storage home).Gains ((r.after as).storage home) fun k =>
    ∃ id, (id ∈ ids → immediate = true) ∧ r.Happens (WritesTo id home k) as

theorem OnlyOthers.tables_eq {ids : List TxId} {immediate : Bool} {l : Ledger C} {r : Repository C}
    {as : List (Action C)} {home : Nat} (h : OnlyOthers ids immediate l r as home) (hdelayed : immediate = false)
    (hnone : ∀ id, id ∉ ids → ∀ k, ¬r.Happens (WritesTo id home k) as) :
    ((r.after as).storage home).tables = (r.storage home).tables := by
  refine h.tables.tables_eq fun k ⟨id, hid, hwrites⟩ => ?_
  rw [hdelayed] at hid
  exact absurd hwrites (hnone id (fun hmem => Bool.false_ne_true (hid hmem)) k)

end Repository

namespace Manager

/-- **A dry run publishes nothing.**  Whatever failures are queued, whatever its code does beside its own transaction,
and whatever is done after it: none of the transactions of the call ever commits, none of their writes is ever published
or left as a draft, and the versions and the rows of each storage are what they were, with what others have published
meanwhile on top.  If the writes are queued, the call makes no table, either. -/
theorem dry_run_publishes_nothing (before : List (Action C)) {m : Manager} (hdry : m.options.dryRun = true)
    (site : CallSite) {body : Body C V α} (hbody : body.LeavesEnd) {s : Shared C V}
    (hs : s.store.inner = ({} : Repository C).after before) :
    let r := s.store.inner
    let r' := (m.tx site body s).2.store.inner
    let ids := (m.made site body s).map Made.tx
    let ch := ({} : Chronicle C).along {} before
    ∃ as : List (Action C), r' = r.after as ∧
      (∀ home ≤ r.retired.length,
        r.OnlyOthers ids m.options.isImmediate (ch.ledger home) as home ∧
        (m.options.isImmediate = false → (∀ id, id ∉ ids → ∀ k, ¬r.Happens (Repository.WritesTo id home k) as) →
          (r'.storage home).tables = (r.storage home).tables)) ∧
      (∀ later, r.commitsOf ids (as ++ later) = [] ∧
        let ch' := ({} : Chronicle C).along {} (before ++ as ++ later)
        ch'.Tells (r'.after later) ∧ ∀ p, ch'.Holds p → p.tx ∉ ids) ∧
      ∀ id ∈ ids, r'.session? id = none ∧
        ∀ home ≤ r'.retired.length, ∀ k c, (r'.storage home).draft? id k c = none := by
  intro r r' ids ch
  have hbefore : r = ({} : Repository C).after before := hs
  have hr : r.Sound := hbefore ▸ Repository.sound_after Repository.sound_empty before
  have htells : ch.Tells r := hbefore ▸ Chronicle.tells_after before
  obtain ⟨as, hr', hcommits, hgone, hapart⟩ := dry_run_spec hdry site hbody hr
  change r' = r.after as at hr'
  -- of each transaction of the call: it is new, let go of by the end, and has written nothing if writes are queued
  have hids : ∀ id ∈ ids, r.lastTx < id ∧ r'.Gone id ∧
      (m.options.isImmediate = false → ∀ home k, ¬r.Happens (Repository.WritesTo id home k) as) := by
    intro id hid
    obtain ⟨x, hx, rfl⟩ := List.mem_map.1 hid
    exact ⟨(hgone x hx).1, hr' ▸ (hgone x hx).2, fun hi => hapart hi x hx⟩
  have hrs : r'.Sound := hr' ▸ Repository.sound_after hr as
  have hall : ∀ later, r.commitsOf ids (as ++ later) = [] := fun later => by
    rw [Repository.commitsOf_append, hcommits, ← hr', Repository.commitsOf_of_gone hrs (fun id hid => (hids id hid).2.1),
      List.append_nil]
  have hold : ∀ later, (({} : Chronicle C).along {} (before ++ as ++ later)).Tells (r'.after later) := fun later => by
    have h := Chronicle.tells_after (before ++ as ++ later)
    rw [Repository.after_append, Repository.after_append, ← hbefore, ← hr'] at h
    exact h
  have hplace : ∀ home ≤ r.retired.length, r.OnlyOthers ids m.options.isImmediate (ch.ledger home) as home := by
    intro home hhome
    obtain ⟨news, hledger, hnews, hversion⟩ := ch.ledger_along as hr hhome
    have hhome' : home ≤ r'.retired.length := hr' ▸ Nat.le_trans hhome (Repository.retired_length_after_le as r)
    refine ⟨⟨news, fun p hp => ?_, hversion, fun u k c => ⟨htells.ledger home hhome u k c, ?_⟩⟩, ?_⟩
    · obtain ⟨c, hc, htx, hcp⟩ := hnews p hp
      exact ⟨htx ▸ Repository.commitsOf_eq_nil_iff.1 hcommits c hc, c, hc, htx, hcp⟩
    · have htells' : (ch.along r as).Tells r' := hr' ▸ Chronicle.tells_along htells hr as
      rw [← hledger, ← hr']
      exact htells'.ledger home hhome' u k c
    · refine (Repository.gains_after as hr hhome).congr fun k => exists_congr fun id => ?_
      refine (and_iff_right_of_imp fun hwrites hid => ?_).symm
      by_contra hi
      exact (hids id hid).2.2 (Bool.eq_false_iff.2 hi) home k hwrites
  refine ⟨as, hr', fun home hhome => ⟨hplace home hhome, fun hi hnone => hr' ▸ (hplace home hhome).tables_eq hi hnone⟩,
    fun later => ⟨hall later, hold later, fun p hp hid => ?_⟩, fun id hid => ⟨(hids id hid).2.1.absent, ?_⟩⟩
  -- what is published was committed, and the call has committed nothing, whatever comes later
  · have hnever : (({} : Repository C).after before).commitsOf ids (as ++ later) = (none : Option Commit).toList :=
      hbefore ▸ hall later
    obtain ⟨k, hk, -⟩ := Chronicle.published_by (fun id hid => hbefore ▸ (hids id hid).1) hnever hp hid
    exact Option.not_mem_none _ hk
  · exact fun home hhome k c => (hids id hid).2.1.draft?_eq_none hrs hhome k c

end Manager

namespace Sample

def saving (n : Nat) : Program (catalog "sample") Nat .attempt :=
  .work (.ofOp (.save .item (numbered 1 "tried")) fun _ => n) .finish

/-- Changes an item, after another transaction has published one more, and asks for a second attempt. -/
def relabelTwice (n : Nat) : Program (catalog "sample") Nat .attempt :=
  .aside (.ofOp (.save .item (numbered n "aside")) fun _ => n) fun _ =>
    .work (.ofOp (.save .item (numbered 1 "changed")) fun _ => n) fun result =>
      .finish (if n = 1 then .error (.optimisticLock "first") else result)

def stocked : Shared (catalog "sample") Nat where
  store := { inner := ({} : Repository (catalog "sample")).after oneItem }

/-- A manager that makes dry runs only. -/
def rehearser (mode : WriteMode) : Manager := { options := { dryRun := true, writeMode := mode }, token := ⟨0⟩ }

end Sample

open Sample in
/-- A dry run that applies its writes at once leaves the table of a row that it saved, and no row in it. -/
theorem Manager.dry_run_leaves_a_table :
    let site : CallSite := ⟨"sample", 1⟩
    let body : Body (catalog "sample") Nat Nat := fun n a => (saving n).denote a
    let s : Shared (catalog "sample") Nat := { store := { inner := {} } }
    let dry := (rehearser .immediate).tx site body s
    body.LeavesEnd ∧ dry.1.toOption = some 1 ∧ s.store.inner.tables = [] ∧
      dry.2.store.inner.tables = ["Item"] ∧ dry.2.store.inner.version = s.store.inner.version := by
  refine ⟨Program.leavesEnd fun n _ => trivial, ?_⟩
  decide +kernel

open Sample in
/-- Another transaction publishes an item in the middle of each attempt of a dry run, and the dry run publishes none. -/
theorem Manager.dry_run_publishes_nothing_beside_writer :
    let site : CallSite := ⟨"sample", 1⟩
    let body : Body (catalog "sample") Nat Nat := fun n a => (relabelTwice n).denote a
    ((rehearser .delayed).tx site body stocked).1.toOption = some 2 ∧
      ((rehearser .delayed).tx site body stocked).2.store.inner.version = stocked.store.inner.version + 2 ∧
      ((rehearser .delayed).made site body stocked).map Made.tx = [2, 4] ∧
      ∃ as, ((rehearser .delayed).tx site body stocked).2.store.inner = stocked.store.inner.after as ∧
        ∀ later, stocked.store.inner.commitsOf [2, 4] (as ++ later) = [] := by
  intro site body
  have hbody : body.LeavesEnd := Program.leavesEnd fun n _ _ => trivial
  have hdry : (rehearser .delayed).options.dryRun = true := rfl
  have hstart : stocked.store.inner = ({} : Repository (catalog "sample")).after oneItem := rfl
  have hids : ((rehearser .delayed).made site body stocked).map Made.tx = [2, 4] := by decide +kernel
  obtain ⟨as, hr, -, hlater, -⟩ := dry_run_publishes_nothing oneItem hdry site hbody hstart
  dsimp only at hr hlater
  refine ⟨by decide +kernel, by decide +kernel, hids, as, hr, fun later => ?_⟩
  rw [← hids]
  exact (hlater later).1

end EntityStore

import EntityStore.Proofs.Visibility
/-!
# What a commit publishes

A transaction that has not made a statement yet reads what was published last.  After a successful commit this is, under
every key that the transaction has written, the row of the last write there — with one exception: a deletion that was
applied at once, where no line was, is forgotten, and what others have published meanwhile stays
(`Repository.find_after_commit`).
-/
namespace EntityStore

variable {X : Scalars} {κ : Type} [DecidableEq κ] {C : κ → EntityType X}

/-! ## The published rows after a commit -/

/-- **A successful commit publishes the last effective write to each key.** -/
theorem Chronicle.Knows.published_commit_eq {ch : Chronicle C} {s : Session C} (h : ch.Knows s) (hs : s.Sound)
    (hok : s.commit.1 = .ok ()) {k : κ} {c : Cells X}
    (hw : lastRow? (ch.accepted s.tx.id) k c ≠ none) :
    s.commit.2.storage.published s.commit.2.storage.version k c =
      (lastRow? (ch.effective s.tx.id) k c).getD (s.storage.published s.storage.version k c) := by
  have hversion : s.replayed.2.version = s.storage.version := Storage.version_replay ..
  have hsound : s.replayed.2.Sound := s.moves_replayed.sound hs.storage
  have haccepted : ch.accepted s.tx.id ≠ [] := fun hnil => hw (by rw [hnil]; rfl)
  have hm := h.writable haccepted
  cases s.commit_effect with
  | refused e failed _ _ => rw [failed] at hok; cases hok
  | idle _ _ him _ => rw [hm] at him; cases him
  | failed e failed _ _ => rw [failed] at hok; cases hok
  | unwritten _ _ hst hreplay hu =>
    -- a transaction that was accepted a write has touched the storage, or has drafted nothing
    have hnone : lastRow? (ch.effective s.tx.id) k c = none := by
      cases hi : s.tx.options.isImmediate with
      | true =>
        have hreplayed : s.replayed.2 = s.storage := by
          unfold Session.replayed
          rw [hs.queued hi]
          rfl
        rw [← h.drafts hi]
        exact hs.storage.draft?_of_untouched (hreplayed ▸ hu) k c
      | false =>
        obtain ⟨hpending, hsame⟩ := h.queued hi
        have hne : s.tx.pending.map Pending.toTableWrite ≠ [] := by
          rw [hpending, hsame]
          exact haccepted
        have ht : s.replayed.2.touched.contains s.tx.id = true :=
          Storage.contains_touched_replay s.tx.id s.version s.storage hne hreplay
        rw [hu] at ht
        cases ht
    rw [hst, hnone, Option.getD_none, hversion]
    exact Storage.published_replay _ _ _ _ _ _ hs.storage
  | published _ _ _ _ hst hreplay _ _ =>
    rw [hst]
    have hnew : (s.replayed.2.publish s.tx.id).version = s.storage.version + 1 := congrArg (· + 1) hversion
    rw [hnew, Storage.published_publish hsound, hversion, if_pos (Nat.le_refl _), h.read_replayed hs hreplay,
      hs.storage.published_of_le (Nat.le_succ _)]

/-- The last accepted write was effective, unless it is a deletion that was applied at once. -/
theorem Chronicle.Knows.effective_cases {ch : Chronicle C} {s : Session C} (h : ch.Knows s) {k : κ} {c : Cells X}
    {row : Option (C k).Entity} (hw : lastRow? (ch.accepted s.tx.id) k c = some row) :
    lastRow? (ch.effective s.tx.id) k c = some row ∨
      (lastRow? (ch.effective s.tx.id) k c = none ∧ row = none ∧ s.tx.options.isImmediate = true) := by
  rcases h.effective k c with he | ⟨he, hnone⟩
  · exact .inl (he.trans hw)
  · right
    rw [hw] at hnone
    refine ⟨he, Option.some.inj hnone, ?_⟩
    cases hi : s.tx.options.isImmediate with
    | true => rfl
    | false =>
      rw [(h.queued hi).2, hw] at he
      cases he

/-! ## Transactions without a statement -/

/-- The transaction is as it was started, but for its log and the tables it has opened. -/
structure Transaction.Unused (t : Transaction C) : Prop where
  snapshot : t.snapshot = none
  hasWritten : t.hasWritten = false
  cache : ∀ k ident, (t.cache k).contains ident = false

theorem Session.find_of_unused {s : Session C} (hu : s.tx.Unused) (ho : s.tx.closedBy = none) {k : κ} {ident : (C k).Id}
    {c : Cells X} (hc : (C k).flatten ident = .ok c) (hp : Cells.isPartial c = false) :
    ((TableOp.find k ident).run s).1 = .ok ((s.storage.read s.tx.id s.version k c).map (C k).onLoad) := by
  have hreads := Reads.openTable s k
  have hcache : ((s.openTable k).tx.cache k).contains ident = false := by
    rw [s.cache_openTable]
    exact hu.cache k ident
  have ho' : (s.openTable k).tx.closedBy = none := hreads.closedBy.trans ho
  have hw : (s.openTable k).tx.hasWritten = false := hreads.hasWritten.trans hu.hasWritten
  show ((s.openTable k).find k ident).1 = _
  rw [← hreads.storage, ← hreads.id, ← hreads.version_eq]
  generalize s.openTable k = s' at hcache ho' hw
  unfold find
  rw [hc]
  simp only [hp, hcache, Bool.false_eq_true, if_false]
  unfold findUnknown read Transaction.ensureActive conflict?
  have hl : (s'.lockRow k c).tx.closedBy = none := ho'
  have hlw : (s'.lockRow k c).pin.tx.hasWritten = false := hw
  simp only [hl, hlw]
  rfl

namespace Repository

/-- If the transaction is open, it has not been used. -/
def Unused (r : Repository C) (id : TxId) : Prop := ∀ t, r.transaction? id = some t → t.closedBy = none → t.Unused

theorem unused_onSession {r : Repository C} {id : TxId} (h : r.Unused id) (hr : r.Sound) {other : TxId} {α : Type}
    (f : Session C → Except Error α × Session C) (hid : ∀ s, (f s).2.tx.id = s.tx.id)
    (hf : other = id → ∀ s, (s.tx.closedBy = none → s.tx.Unused) → (f s).2.tx.closedBy = none → (f s).2.tx.Unused) :
    (r.onSession other f).2.Unused id := by
  intro t ht ho
  cases hs : r.session? other with
  | none =>
    rw [snd_onSession_of_none hs] at ht
    exact h t ht ho
  | some s =>
    have hsid := (hr.session other s hs).1
    rw [onSession_of_some hs, transaction?_putSession, hid, hsid] at ht
    split at ht
    · rename_i he
      cases ht
      refine hf he s (h s.tx ?_) ho
      rw [← he]
      exact ((session?_eq_some_iff ..).1 hs).1
    · exact h t ht ho

theorem transaction?_of_release {r : Repository C} (hr : r.Sound) {other id : TxId} {t : Transaction C}
    (ht : (r.release other).transaction? id = some t) : r.transaction? id = some t := by
  unfold release at ht
  cases hs : r.session? other with
  | none =>
    rw [hs] at ht
    exact ht
  | some s =>
    rw [hs] at ht
    have ht : ((r.putSession s.release).transactions.erase other).get? id = some t := ht
    rw [Dict.get?_erase] at ht
    split at ht
    · cases ht
    · rename_i hne
      have ht : (r.putSession s.release).transaction? id = some t := ht
      rw [transaction?_putSession, s.tx_release, (hr.session other s hs).1, if_neg hne] at ht
      exact ht

theorem unused_next {r : Repository C} {id : TxId} (h : r.Unused id) (hr : r.Sound) {a : Action C}
    (ha : ∀ op, a ≠ .statement id op) : (r.next a).Unused id := by
  cases a with
  | start options =>
    intro t ht ho
    have ht : (r.transactions.insert (r.lastTx + 1) { id := r.lastTx + 1, home := r.retired.length, options }).get? id =
      some t := ht
    rw [Dict.get?_insert] at ht
    split at ht
    · cases ht
      exact ⟨rfl, rfl, fun _ _ => rfl⟩
    · exact h t ht ho
  | openTable other k =>
    refine unused_onSession h hr _ (fun s => (Session.Reads.openTable s k).id) fun _ s hs ho => ?_
    have hreads := Session.Reads.openTable s k
    have hu := hs (hreads.closedBy ▸ ho)
    refine ⟨(s.snapshot_openTable k).trans hu.snapshot, hreads.hasWritten.trans hu.hasWritten, fun j ident => ?_⟩
    exact (s.cache_openTable k j).symm ▸ hu.cache j ident
  | statement other op =>
    exact unused_onSession h hr _ (fun s => (s.advances_statement op).id) fun he => absurd (he ▸ rfl) (ha op)
  | record other f =>
    refine unused_onSession h hr (fun s => (.ok (), { s with tx := { s.tx with log := f s.tx.log } })) (fun _ => rfl)
      fun _ s hs ho => ?_
    obtain ⟨hsnapshot, hwritten, hcache⟩ := hs ho
    exact ⟨hsnapshot, hwritten, hcache⟩
  | commit other =>
    refine unused_onSession h hr Session.commit (fun s => s.advances_commit.id) fun _ s hs ho => ?_
    have hsame := Session.commit_of_isOpen ho
    rw [hsame] at ho ⊢
    exact hs ho
  | rollback other =>
    refine unused_onSession h hr Session.rollback (fun s => s.advances_rollback.id) fun _ s hs ho => ?_
    have hsame := Session.rollback_of_isOpen ho
    rw [hsame] at ho ⊢
    exact hs ho
  -- whoever is left was there before, with all that it had
  | release other => exact fun t ht ho => h t (transaction?_of_release hr ht) ho
  | makeSnapshot sid => exact h
  | loadSnapshot sid =>
    show (r.orSame (r.loadSnapshot sid)).2.Unused id
    unfold loadSnapshot
    split <;> exact h
  | dropSnapshot sid =>
    show (r.orSame (r.dropSnapshot sid)).2.Unused id
    unfold dropSnapshot
    split <;> exact h

theorem unused_after {id : TxId} : ∀ (as : List (Action C)) {r : Repository C}, r.Unused id → r.Sound →
    (∀ op, .statement id op ∉ as) → (r.after as).Unused id
  | [], _, h, _, _ => h
  | a :: rest, r, h, hr, ha => by
    refine unused_after rest (unused_next h hr fun op he => ?_) (sound_next hr a) fun op hm => ?_
    · exact ha op (he ▸ List.mem_cons_self)
    · exact ha op (List.mem_cons_of_mem a hm)

theorem storage_after_starts (home : Nat) : ∀ {bs : List (Action C)} (r : Repository C),
    (∀ b ∈ bs, ∃ options, b = .start options) → (r.after bs).storage home = r.storage home
  | [], _, _ => rfl
  | b :: rest, r, hb => by
    obtain ⟨options, rfl⟩ := hb b List.mem_cons_self
    exact storage_after_starts home (r.start options).2 fun b hm => hb b (List.mem_cons_of_mem _ hm)

end Repository

/-- **A transaction without a statement sees what was published last.** -/
theorem Chronicle.Tells.row_of_unused {ch : Chronicle C} {r : Repository C} (h : ch.Tells r) (hr : r.Sound) {id : TxId}
    {s : Session C} (hs : r.session? id = some s) (ho : s.tx.closedBy = none) (hu : s.tx.Unused) (k : κ) (c : Cells X) :
    s.row k c = s.storage.published s.storage.version k c := by
  obtain ⟨-, -, -, hsound⟩ := hr.session id s hs
  have hknows := h.session id s hs ho
  have hdraft : s.storage.draft? s.tx.id k c = none := by
    cases hi : s.tx.options.isImmediate with
    | true =>
      rw [hknows.drafts hi]
      rcases hknows.effective k c with he | ⟨he, -⟩
      · rw [he]
        cases hl : lastRow? (ch.accepted s.tx.id) k c with
        | none => rfl
        | some row =>
          obtain ⟨v, hv, -⟩ := hknows.own hi k c row hl
          rw [hu.snapshot] at hv
          cases hv
      · exact he
    | false =>
      refine hsound.storage.draft?_of_untouched (Bool.eq_false_iff.2 fun ht => ?_) k c
      rw [(hsound.touched ht).2.2] at hi
      cases hi
  have hversion : s.version = s.storage.version := by
    unfold Session.version
    rw [hu.snapshot]
    rfl
  unfold Session.row
  rw [Storage.read_eq, hdraft, hversion, Option.getD_none]

namespace Repository

/-- **The first read after a commit.**  Let a transaction commit, and let one that has made no statement yet, started
before or after that on the same storage, find an identifier that the first one has written to.  It finds the entity
of the last write there, or none after a deletion.  The exception is a deletion that was applied at once where no line
was: it has left nothing, and what others had published by the time of the commit is found. -/
theorem find_after_commit (as bs : List (Action C)) (id reader : TxId) (s u : Session C)
    (hs : (({} : Repository C).after as).session? id = some s)
    (hok : ((({} : Repository C).after as).perform (.commit id)).1 = .ok ())
    (hbs : ∀ b ∈ bs, ∃ options, b = .start options)
    (hu : (((({} : Repository C).after as).next (.commit id)).after bs).session? reader = some u)
    (ho : u.tx.closedBy = none) (hhome : u.tx.home = s.tx.home) (hunused : ∀ op, .statement reader op ∉ as)
    (k : κ) (c : Cells X) (row : Option (C k).Entity)
    (hw : lastRow? ((({} : Chronicle C).along {} as).accepted id) k c = some row) :
    ∃ shown, u.row k c = shown ∧
      (∀ ident, (C k).flatten ident = .ok c → Cells.isPartial c = false →
        ((((({} : Repository C).after as).next (.commit id)).after bs).perform (.statement reader (.find k ident))).1 =
          .ok (shown.map (C k).onLoad)) ∧
      ((lastRow? ((({} : Chronicle C).along {} as).effective id) k c = some row ∧ shown = row) ∨
        (lastRow? ((({} : Chronicle C).along {} as).effective id) k c = none ∧ row = none ∧
          s.tx.options.isImmediate = true ∧ shown = s.storage.published s.storage.version k c)) := by
  have hr := sound_after (sound_empty (C := C)) as
  have htells := Chronicle.tells_along (Chronicle.tells_empty (C := C)) sound_empty as
  have hfresh : ({} : Repository C).Unused reader := fun t ht => by cases ht
  have hunused' := unused_after as hfresh sound_empty hunused
  generalize ({} : Repository C).after as = r at hs hok hu hr htells hunused'
  generalize ({} : Chronicle C).along {} as = ch at hw htells
  obtain ⟨hsid, -, hshome, hssound⟩ := hr.session id s hs
  have hnext : r.next (.commit id) = r.putSession s.commit.2 := by
    show (r.onSession id Session.commit).2 = _
    rw [onSession_of_some hs]
  have hok : s.commit.1 = .ok () := by
    have hfst : (r.perform (.commit id)).1 = s.commit.1 := congrArg Prod.fst (onSession_of_some hs Session.commit)
    exact hfst.symm.trans hok
  have hknows := htells.session id s hs (Session.isOpen_of_commit hok)
  -- the state after the commit, and the one that the reader finds
  have hr' := sound_next hr (.commit id)
  have htells' := Chronicle.tells_note htells hr (.commit id)
  have hstorage : ((r.next (.commit id)).after bs).storage s.tx.home = s.commit.2.storage := by
    rw [storage_after_starts _ _ hbs, hnext, storage_putSession r (s.advances_commit.home ▸ hshome) hshome,
      if_pos s.advances_commit.home]
  have hstarts : ∀ op, Action.statement reader op ∉ bs := by
    intro op hm
    obtain ⟨options, he⟩ := hbs _ hm
    cases he
  have hfresh := unused_after bs (unused_next hunused' hr (a := .commit id) fun op he => by cases he) hr' hstarts
  have hr'' := sound_after hr' bs
  have htells'' := Chronicle.tells_along htells' hr' bs
  generalize (r.next (.commit id)).after bs = r' at hu hstorage hfresh hr'' htells''
  have huu := hfresh u.tx ((session?_eq_some_iff ..).1 hu).1 ho
  have hust : u.storage = s.commit.2.storage := by rw [storage_of_session? hu, hhome, hstorage]
  have hrow : u.row k c =
      (lastRow? (ch.effective id) k c).getD (s.storage.published s.storage.version k c) := by
    rw [htells''.row_of_unused hr'' hu ho huu, hust, ← hsid]
    refine hknows.published_commit_eq hssound hok ?_
    rw [hsid, hw]
    exact Option.some_ne_none row
  refine ⟨u.row k c, rfl, fun ident hident hpartial => ?_, ?_⟩
  · show (r'.onSession reader (TableOp.find k ident).run).1 = _
    rw [onSession_of_some hu]
    exact Session.find_of_unused huu ho hident hpartial
  · subst hsid
    rcases hknows.effective_cases hw with he | ⟨he, hnone, himmediate⟩
    · rw [he] at hrow
      exact .inl ⟨he, hrow⟩
    · rw [he] at hrow
      exact .inr ⟨he, hnone, himmediate, hrow⟩

end Repository

namespace Sample

/-- The key of the item that the samples below write. -/
def itemCells : Cells scalars := [some (.integer 1), some (.integer 0), some (.string "c"), some (.enum "OK")]

def itemIdent : ItemId := ⟨some 1, some 0, some "c", some .ok⟩

/-- The first transaction deletes an item that is not there, and the second one publishes it. -/
def deletionBesideInsertion (mode : WriteMode) : List (Action (catalog "sample")) :=
  [.start { writeMode := mode }, .statement 1 (.delete .item itemIdent), .start {},
    .statement 2 (.insert .item ⟨itemIdent, "second"⟩), .commit 2]

end Sample

open Sample in
/-- A deletion that waits for the commit removes what others have published meanwhile. -/
theorem Repository.find_after_commit_of_queued_deletion :
    ((((({} : Repository (catalog "sample")).after (deletionBesideInsertion .delayed)).next (.commit 1)).after
      [.start {}]).perform (.statement 3 (.find .item itemIdent))).1 = .ok (none : Option Item) := by
  obtain ⟨s, hs, himmediate, hhome⟩ : ∃ s, (({} : Repository (catalog "sample")).after
      (deletionBesideInsertion .delayed)).session? 1 = some s ∧ s.tx.options.isImmediate = false ∧ s.tx.home = 0 :=
    ⟨_, rfl, rfl, rfl⟩
  have hok : ((({} : Repository (catalog "sample")).after (deletionBesideInsertion .delayed)).perform (.commit 1)).1 =
    .ok () := rfl
  obtain ⟨u, hu, ho, hhome'⟩ : ∃ u, (((({} : Repository (catalog "sample")).after
      (deletionBesideInsertion .delayed)).next (.commit 1)).after [.start {}]).session? 3 = some u ∧
        u.tx.closedBy = none ∧ u.tx.home = 0 := ⟨_, rfl, rfl, rfl⟩
  have hw : lastRow? ((({} : Chronicle (catalog "sample")).along {} (deletionBesideInsertion .delayed)).accepted 1) .item
    itemCells = some none := rfl
  obtain ⟨shown, -, hfind, hshown⟩ := find_after_commit _ _ 1 3 s u hs hok (by simp) hu ho (hhome'.trans hhome.symm)
    (by simp [deletionBesideInsertion]) .item itemCells none hw
  have hnone : shown = none := by
    rcases hshown with ⟨-, h⟩ | ⟨-, -, h, -⟩
    · exact h
    · rw [himmediate] at h
      cases h
  rw [hfind itemIdent rfl rfl, hnone]
  rfl

open Sample in
/-- A deletion that was applied at once does not: the item is still there after the commit. -/
theorem Repository.find_after_commit_of_forgotten_deletion :
    ((({} : Repository (catalog "sample")).after (deletionBesideInsertion .immediate)).perform (.commit 1)).1 = .ok () ∧
    lastRow? ((({} : Chronicle (catalog "sample")).along {} (deletionBesideInsertion .immediate)).accepted 1) .item
      itemCells = some none ∧
    ((((({} : Repository (catalog "sample")).after (deletionBesideInsertion .immediate)).next (.commit 1)).after
      [.start {}]).perform (.statement 3 (.find .item itemIdent))).1 = .ok (some (⟨itemIdent, "second"⟩ : Item)) :=
  ⟨rfl, rfl, rfl⟩

end EntityStore

import EntityStore.Proofs.Chronicle
import EntityStore.Samples.Catalog
/-!
# What a transaction sees

Once its snapshot is fixed, an open transaction sees the same rows whatever others do (`seesSame_after`), and what
it sees is its own last write or else what the chronicle says was published by its snapshot (`row_eq`).
-/
namespace EntityStore

variable {X : Scalars} {κ : Type} [DecidableEq κ] {C : κ → EntityType X}

namespace Session

/-- The row that the transaction sees under a key. -/
def row (s : Session C) (k : κ) (c : Cells X) : Option (C k).Entity := s.storage.read s.tx.id s.version k c

/-- The rows that the transaction sees in a table, in canonical order. -/
def rows (s : Session C) (k : κ) : List (Cells X × (C k).Entity) := s.storage.rows s.tx.id s.version k

/-- Two states of a transaction in which it sees the same. -/
structure SeesSame (s s' : Session C) : Prop where
  tx : s'.tx = s.tx
  row : ∀ k c, s'.row k c = s.row k c
  rows : ∀ k, s'.rows k = s.rows k

theorem SeesSame.refl (s : Session C) : SeesSame s s := ⟨rfl, fun _ _ => rfl, fun _ => rfl⟩

theorem SeesSame.trans {s s' s'' : Session C} (h : SeesSame s s') (h' : SeesSame s' s'') : SeesSame s s'' :=
  ⟨h'.tx.trans h.tx, fun k c => (h'.row k c).trans (h.row k c), fun k => (h'.rows k).trans (h.rows k)⟩

/-- **The moves of another transaction hide behind the snapshot.** -/
theorem seesSame_following {s t t' : Session C} (hs : s.Sound) {v : Nat} (hv : s.tx.snapshot = some v)
    (hid : t.tx.id ≠ s.tx.id) (hm : t'.tx.home = s.tx.home → Storage.Moves t.tx.id s.storage t'.storage) :
    SeesSame s (s.following t') := by
  have hle := hs.snapshot v hv
  unfold following
  split
  · rename_i he
    have hm := hm he
    have hversion : ({ s with storage := t'.storage } : Session C).version = s.version := by
      unfold version
      rw [hv]
      rfl
    refine ⟨rfl, fun k c => ?_, fun k => ?_⟩
    · unfold row
      rw [hversion, version_of_snapshot hv]
      exact hm.read_eq hs.storage hid hle k c
    · unfold rows
      rw [hversion, version_of_snapshot hv]
      exact hm.rows_eq hs.storage hid hle k
  · exact .refl s

end Session

namespace Repository

theorem seesSame_next {r : Repository C} (h : r.Sound) {id : TxId} {s : Session C} (hs : r.session? id = some s)
    {v : Nat} (hv : s.tx.snapshot = some v) {a : Action C} (ha : a.actor? ≠ some id) :
    ∃ s', (r.next a).session? id = some s' ∧ Session.SeesSame s s' := by
  obtain ⟨hsid, hsle, -, hsound⟩ := h.session id s hs
  -- the move of another transaction's session, on the same storage or on another one
  have hput : ∀ (other : TxId) (t t' : Session C), other ≠ id → r.session? other = some t → Session.Advances t t' →
      ∃ s', (r.putSession t').session? id = some s' ∧ Session.SeesSame s s' := by
    intro other t t' hne ht hadv
    obtain ⟨htid, -, hthome, -⟩ := h.session other t ht
    refine ⟨s.following t', ?_, ?_⟩
    · rw [session?_putSession_of_ne h (hadv.home ▸ hthome) (hadv.id.trans htid ▸ hne), hs]
      rfl
    · refine Session.seesSame_following (t := t) hsound hv (by rw [htid, hsid]; exact hne) fun he => ?_
      rw [storage_of_session? hs, ← he, hadv.home, ← storage_of_session? ht]
      exact hadv.moves
  have he := r.effect a
  generalize r.next a = r' at he
  cases he with
  | none => exact ⟨s, hs, .refl s⟩
  | started options =>
    refine ⟨s, ?_, .refl s⟩
    rw [session?_start, if_neg, hs]
    rintro rfl
    exact Nat.not_succ_le_self _ hsle
  | advanced other t t' hact ht hadv =>
    refine hput other t t' ?_ ht hadv
    rintro rfl
    exact ha hact
  | released other t ht =>
    have hne : other ≠ id := by
      rintro rfl
      exact ha rfl
    obtain ⟨s', hs', hsame⟩ := hput other t _ hne ht t.advances_release
    refine ⟨s', ?_, hsame⟩
    rw [session?_forget, if_neg hne, hs']
  | saved label => exact ⟨s, hs, .refl s⟩
  | loaded sid st hst => exact ⟨s, (session?_load h st id).trans hs, .refl s⟩
  | dropped sid => exact ⟨s, hs, .refl s⟩

theorem seesSame_after {id : TxId} {v : Nat} : ∀ (as : List (Action C)) {r : Repository C} {s : Session C}, r.Sound →
    r.session? id = some s → s.tx.snapshot = some v → (∀ a ∈ as, a.actor? ≠ some id) →
      ∃ s', (r.after as).session? id = some s' ∧ Session.SeesSame s s'
  | [], _, s, _, hs, _, _ => ⟨s, hs, .refl s⟩
  | a :: rest, r, s, h, hs, hv, ha => by
    obtain ⟨s₁, hs₁, hsame₁⟩ := seesSame_next h hs hv (ha a List.mem_cons_self)
    obtain ⟨s₂, hs₂, hsame₂⟩ := seesSame_after rest (sound_next h a) hs₁ (by rw [hsame₁.tx, hv])
      fun b hb => ha b (List.mem_cons_of_mem a hb)
    exact ⟨s₂, hs₂, hsame₁.trans hsame₂⟩

end Repository

/-! ## The rows in terms of the chronicle -/

/-- What the chronicle says an open transaction sees with the snapshot `v`: the last write that it has applied, or else
the row that the last publication up to `v` in its storage has left. -/
def Chronicle.visible (ch : Chronicle C) (tx : Transaction C) (v : Nat) (k : κ) (c : Cells X) : Option (C k).Entity :=
  ((if tx.options.isImmediate then lastRow? (ch.accepted tx.id) k c else none)).getD ((ch.ledger tx.home).row v k c)

theorem Chronicle.Tells.row_eq {ch : Chronicle C} {r : Repository C} (h : ch.Tells r) (hr : r.Sound) {id : TxId}
    {s : Session C} (hs : r.session? id = some s) (ho : s.tx.closedBy = none) {v : Nat} (hv : s.tx.snapshot = some v)
    (k : κ) (c : Cells X) : s.row k c = ch.visible s.tx v k c := by
  obtain ⟨hsid, -, hshome, hsound⟩ := hr.session id s hs
  have hknows := h.session id s hs ho
  have hledger : s.storage.published v k c = (ch.ledger s.tx.home).row v k c := by
    rw [Repository.storage_of_session? hs]
    exact h.ledger _ hshome v k c
  unfold Session.row visible
  rw [Session.version_of_snapshot hv]
  cases hi : s.tx.options.isImmediate with
  | true =>
    rw [if_pos rfl]
    cases hl : lastRow? (ch.accepted s.tx.id) k c with
    | some row =>
      obtain ⟨u, hu, hread⟩ := hknows.own hi k c row hl
      rw [hv] at hu
      cases hu
      exact hread
    | none =>
      have heff : lastRow? (ch.effective s.tx.id) k c = none := by
        rcases hknows.effective k c with he | ⟨he, -⟩
        · rw [he, hl]
        · exact he
      rw [Storage.read_eq, hknows.drafts hi, heff, hledger, Option.getD_none]
  | false =>
    rw [Storage.read_eq, hsound.storage.draft?_of_untouched (hsound.untouched_of_delayed hi), hledger]
    rfl

/-- **A fixed snapshot is stable.**  Whatever was done with a repository so far, an open transaction whose snapshot is
fixed sees the same rows under all keys, and the same lists of rows, whatever others do from there; and each row is its
own last applied write or else what was published there by its snapshot in the storage it works on. -/
theorem Repository.snapshot_stable (as : List (Action C)) (id : TxId) (s : Session C) (v : Nat)
    (hs : (({} : Repository C).after as).session? id = some s) (ho : s.tx.closedBy = none)
    (hv : s.tx.snapshot = some v) :
    (∀ bs : List (Action C), (∀ b ∈ bs, b.actor? ≠ some id) →
      ∃ s', ((({} : Repository C).after as).after bs).session? id = some s' ∧ Session.SeesSame s s') ∧
    (∀ k c, s.row k c = (({} : Chronicle C).along {} as).visible s.tx v k c) :=
  have hr := Repository.sound_after (Repository.sound_empty (C := C)) as
  ⟨fun bs hbs => Repository.seesSame_after bs hr hs hv hbs,
    fun k c => (Chronicle.tells_along Chronicle.tells_empty Repository.sound_empty as).row_eq hr hs ho hv k c⟩

/-- An item is published, a second transaction applies another one at once and lists them, and a third one replaces the
first item without a commit. -/
def Sample.besideWriters : List (Action (Sample.catalog "sample")) :=
  [.start {}, .statement 1 (.save .item ⟨⟨some 1, some 0, some "c", some .ok⟩, "first"⟩), .commit 1,
    .start { writeMode := .immediate }, .statement 2 (.save .item ⟨⟨some 2, some 0, some "c", some .ok⟩, "second"⟩),
    .statement 2 (.findAll .item),
    .start { writeMode := .immediate }, .statement 3 (.save .item ⟨⟨some 1, some 0, some "c", some .ok⟩, "other"⟩)]

theorem Repository.snapshot_stable_beside_writers :
    ∃ s, (({} : Repository (Sample.catalog "sample")).after Sample.besideWriters).session? 2 = some s ∧
      s.tx.closedBy = none ∧ s.tx.snapshot = some 1 ∧
      (∀ bs : List (Action (Sample.catalog "sample")), (∀ b ∈ bs, b.actor? ≠ some 2) →
        ∃ s', ((({} : Repository (Sample.catalog "sample")).after Sample.besideWriters).after bs).session? 2 = some s' ∧
          Session.SeesSame s s') ∧
      (∀ k c, s.row k c =
        (({} : Chronicle (Sample.catalog "sample")).along {} Sample.besideWriters).visible s.tx 1 k c) :=
  ⟨_, rfl, rfl, rfl, snapshot_stable Sample.besideWriters 2 _ 1 rfl rfl rfl⟩

end EntityStore

import EntityStore.Proofs.Absence
import EntityStore.Proofs.Serial
/-!
# Transactions on copies of a storage

A storage and its settled copy differ in what has not been published, and a transaction sees nothing of that but its
own drafts.  `Session.Copies` relates two transactions in the same inner state, each on a storage of its own, that have
the same drafts there over the same published versions and the same lines.  Each statement gives both the same answer
and keeps them so (`Session.Copies.run`), and so does any number of statements (`Session.Copies.runAll`).
-/
namespace EntityStore

variable {X : Scalars} {κ : Type} [DecidableEq κ] {C : κ → EntityType X}

/-! ## Storages -/

namespace Storage

/-- To the transaction `tx` the first storage is what the second one is to `tx'`. -/
structure Copies (tx tx' : TxId) (s s' : Storage C) : Prop where
  sound : s.Sound
  sound' : s'.Sound
  version : s'.version = s.version
  draft : ∀ k c, s'.draft? tx' k c = s.draft? tx k c
  published : ∀ v k c, s'.published v k c = s.published v k c
  stale : ∀ v k c, s'.isStale v k c = s.isStale v k c
  line : ∀ k c, s'.hasLine k c = s.hasLine k c

namespace Copies

variable {tx tx' : TxId} {s s' : Storage C}

theorem of_untouched (h : s.Sound) (ht : s.touched.contains tx = false) : s.Copies tx tx' s.settled where
  sound := h
  sound' := sound_settled h
  version := rfl
  draft k c := (draft?_settled ..).trans (h.draft?_of_untouched ht k c).symm
  published := published_settled s
  stale := isStale_settled s
  line := hasLine_settled s

theorem settled (h : s.Copies tx tx' s') (ht : s.touched.contains tx = false) : s.Copies tx tx' s'.settled where
  sound := h.sound
  sound' := sound_settled h.sound'
  version := h.version
  draft k c := (draft?_settled ..).trans (h.sound.draft?_of_untouched ht k c).symm
  published v k c := (published_settled ..).trans (h.published v k c)
  stale v k c := (isStale_settled ..).trans (h.stale v k c)
  line k c := (hasLine_settled ..).trans (h.line k c)

theorem read (h : s.Copies tx tx' s') (v : Nat) (k : κ) (c : Cells X) : s'.read tx' v k c = s.read tx v k c := by
  rw [read_eq, read_eq, h.draft, h.published]

/-- **A write comes to the same in both.** -/
theorem write (h : s.Copies tx tx' s') (v : Nat) (k : κ) (w : Write (C k)) :
    (s'.write tx' v k w).1 = (s.write tx v k w).1 ∧ (s.write tx v k w).2.Copies tx tx' (s'.write tx' v k w).2 := by
  have hlands : s'.lands tx' v k w = s.lands tx v k w := by
    rw [lands_eq, lands_eq, h.read, h.line]
  refine ⟨by rw [fst_write, fst_write, h.read],
    ⟨sound_write h.sound .., sound_write h.sound' .., ?_, fun j c => ?_, fun u j c => ?_, fun u j c => ?_, fun j c => ?_⟩⟩
  · rw [version_write, version_write, h.version]
  · by_cases hk : k = j
    · subst hk
      simp only [draft?_write_self h.sound, draft?_write_self h.sound', hlands, h.draft, true_and]
    · rw [draft?_write_of_ne _ _ _ _ hk, draft?_write_of_ne _ _ _ _ hk, h.draft]
  · rw [published_write h.sound, published_write h.sound', h.published]
  · rw [isStale_write h.sound, isStale_write h.sound', h.stale]
  · rw [Bool.eq_iff_iff, hasLine_write h.sound, hasLine_write h.sound', hlands, h.line]

end Copies

end Storage

/-! ## Sessions -/

/-- A transaction but for its number, its place and its log. -/
def Transaction.inner (t : Transaction C) : Transaction C := { t with id := 0, home := 0, log := { level := .off } }

namespace Session

/-- Two transactions in the same inner state, to which their storages are the same. -/
structure Copies (s s' : Session C) : Prop where
  inner : s'.tx.inner = s.tx.inner
  storage : s.storage.Copies s.tx.id s'.tx.id s'.storage

namespace Copies

variable {s s' : Session C}

theorem options (h : Copies s s') : s'.tx.options = s.tx.options := (congrArg Transaction.options h.inner :)

theorem locks (h : Copies s s') : s'.tx.locks = s.tx.locks := (congrArg Transaction.locks h.inner :)

theorem closedBy (h : Copies s s') : s'.tx.closedBy = s.tx.closedBy := (congrArg Transaction.closedBy h.inner :)

theorem version (h : Copies s s') : s'.version = s.version := by
  have hsnapshot : s'.tx.snapshot = s.tx.snapshot := (congrArg Transaction.snapshot h.inner :)
  unfold Session.version
  rw [hsnapshot, h.storage.version]

theorem row (h : Copies s s') (k : κ) (c : Cells X) : s'.row k c = s.row k c := by
  unfold Session.row
  rw [h.version]
  exact h.storage.read s.version k c

theorem rows (h : Copies s s') (k : κ) : s'.rows k = s.rows k :=
  Storage.rows_eq_of_read_eq h.storage.sound h.storage.sound' fun c => h.row k c

theorem change (h : Copies s s') {t t' : Transaction C} (hinner : t'.inner = t.inner) (ht : t.id = s.tx.id)
    (ht' : t'.id = s'.tx.id) : Copies { s with tx := t } { s' with tx := t' } :=
  ⟨hinner, ht ▸ ht' ▸ h.storage⟩

theorem logStatement {α : Type} (h : Copies s s') (action : String) (summary : α → String) (r r' : Except Error α) :
    Copies (s.logStatement action summary r) (s'.logStatement action summary r') := by
  cases r <;> cases r' <;> exact h.change h.inner rfl rfl

theorem setCache (h : Copies s s') (k : κ) (c : Cache (C k)) : Copies (s.setCache k c) (s'.setCache k c) :=
  h.change (congrArg (fun t : Transaction C => t.setCache k c) h.inner) rfl rfl

theorem openTable (h : Copies s s') (k : κ) : Copies (s.openTable k) (s'.openTable k) := by
  have hcaches : s'.tx.caches = s.tx.caches := (congrArg Transaction.caches h.inner :)
  unfold Session.openTable
  rw [hcaches, h.options]
  split
  · exact h
  · exact h.setCache k _

theorem pin (h : Copies s s') : Copies s.pin s'.pin := by
  unfold Session.pin
  rw [h.version]
  exact h.change (congrArg (fun t : Transaction C => { t with snapshot := some s.version }) h.inner) rfl rfl

theorem conflict? (h : Copies s s') (k : κ) : s'.conflict? k = s.conflict? k := by
  have hwritten : s'.tx.hasWritten = s.tx.hasWritten := (congrArg Transaction.hasWritten h.inner :)
  have hcheck := Shard.checkLocks_congr (h.storage.sound.getD k) (h.storage.sound'.getD k) (v := s.version)
    (fun c => by rw [← Storage.isStale_eq_getD, ← Storage.isStale_eq_getD, h.storage.stale]) (s.tx.locks.on k)
  rw [conflict?_eq, conflict?_eq, hwritten, h.version, h.locks, hcheck]

theorem read {α : Type} (h : Copies s s') (k : κ) (action : String) (summary : α → String)
    (f f' : Option (Shard (C k)) → Nat → Except Error α)
    (hf : s.tx.closedBy = none → f (s.storage.shard? k) s.version = f' (s'.storage.shard? k) s'.version) :
    Matches Copies (s.read k action summary f) (s'.read k action summary f') := by
  unfold Session.read Transaction.ensureActive
  rw [h.closedBy]
  cases hc : s.tx.closedBy with
  | some closing => exact ⟨rfl, h⟩
  | none =>
    dsimp only
    rw [h.pin.conflict? k]
    cases s.pin.conflict? k with
    | some e =>
      dsimp only
      refine .of (logStatement ?_ ..)
      exact h.pin.change (congrArg (fun t : Transaction C => { t with invalidated := true }) h.pin.inner) rfl rfl
    | none => exact ⟨hf hc, h.pin.logStatement ..⟩

theorem apply (h : Copies s s') (action : String) (k : κ) (w : Write (C k)) :
    Matches Copies (s.apply action k w) (s'.apply action k w) := by
  have hpin := h.pin
  have hwrite := hpin.storage.write s.pin.version k w
  unfold Session.apply
  dsimp only
  rw [hpin.version]
  generalize s.pin.storage.write s.pin.tx.id s.pin.version k w = r at hwrite
  generalize s'.pin.storage.write s'.pin.tx.id s.pin.version k w = r' at hwrite
  obtain ⟨answer, storage⟩ := r
  obtain ⟨answer', storage'⟩ := r'
  obtain ⟨hfst, hstorage⟩ := hwrite
  dsimp only at hfst hstorage
  subst hfst
  have hnext : Copies { s.pin with storage } { s'.pin with storage := storage' } := ⟨hpin.inner, hstorage⟩
  cases answer' with
  | error e =>
    dsimp only
    exact .of (hnext.logStatement ..)
  | ok u =>
    dsimp only
    refine .of (logStatement ?_ ..)
    exact hnext.change (congrArg (fun t : Transaction C => { t with hasWritten := true }) hpin.inner) rfl rfl

theorem write (h : Copies s s') (action : String) (k : κ) (w : Write (C k)) :
    Matches Copies (s.write action k w) (s'.write action k w) := by
  have hmutable : s'.tx.ensureMutable = s.tx.ensureMutable := (congrArg Transaction.ensureMutable h.inner :)
  unfold Session.write Transaction.ensureActive
  rw [h.closedBy, hmutable, h.options]
  cases s.tx.closedBy with
  | some closing => exact ⟨rfl, h⟩
  | none =>
    dsimp only
    cases s.tx.ensureMutable with
    | error e => exact ⟨rfl, h⟩
    | ok u =>
      dsimp only
      split
      · exact h.apply action k w
      · refine ⟨rfl, h.change ?_ rfl rfl⟩
        exact congrArg (fun t : Transaction C => { t with pending := t.pending ++ [(⟨action, k, w⟩ : Pending C)] }) h.inner

theorem congruence : Congruence (Copies (C := C)) where
  cache h k := (congrArg (fun t : Transaction C => t.cache k) h.inner).symm
  limits h := congrArg TxOptions.scan h.options.symm
  sound h := ⟨h.storage.sound, h.storage.sound'⟩
  lockRow h k c := h.change (congrArg (fun t : Transaction C => { t with locks := t.locks.lockRow k c }) h.inner) rfl rfl
  lockScan h k scan :=
    h.change (congrArg (fun t : Transaction C => { t with locks := t.locks.lockScan k scan }) h.inner) rfl rfl
  setCache h := h.setCache
  openTable h := h.openTable
  read h := h.read

/-- **A statement comes to the same in both.** -/
theorem run (h : Copies s s') (op : TableOp C) : Matches Copies (op.run s) (op.run s') :=
  op.run_congruence congruence h (fun _ _ k c _ => (h.row k c).symm) fun w action _ ht _ _ => ht.write action w.kind w.write

/-- **Any number of statements comes to the same in both.** -/
theorem runAll : ∀ (ops : List (TableOp C)) {s s' : Session C}, Copies s s' →
    Matches Copies (s.runAll ops) (s'.runAll ops)
  | [], _, _, h => ⟨rfl, h⟩
  | op :: rest, s, s', h => by
    obtain ⟨hanswer, hnext⟩ := h.run op
    obtain ⟨hmore, hlast⟩ := runAll rest hnext
    refine ⟨?_, hlast⟩
    show (⟨op, (op.run s).1⟩ : Exchange C) :: ((op.run s).2.runAll rest).1 =
      ⟨op, (op.run s').1⟩ :: ((op.run s').2.runAll rest).1
    rw [hanswer, hmore]

end Copies

end Session

end EntityStore

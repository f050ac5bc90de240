import EntityStore.Proofs.Congruence
/-!
# A transaction and its absence

What would a storage be without one transaction that has published nothing?  `Storage.Lacks` relates the two: the others
have the same drafts under the numbers that they then have (`renumber`), every snapshot shows the same rows, and the same
keys are stale.  All that the transaction can have left behind are lines without versions, under keys where it has
planted them.  Writes, publications and rollbacks of the others keep the relation, unless they delete under such a key:
a deletion needs a line, and drafts nothing without one.

`Session.Lacks` is the same for the session of another transaction.  All that it does comes to the same answer
(`Lacks.run`, `Lacks.commit`, `Lacks.rollback`), but that a commit may name another one of several conflicts.
-/
namespace EntityStore

variable {X : Scalars} {κ : Type} [DecidableEq κ] {C : κ → EntityType X}

/-- The number of a transaction when `out` is never started. -/
def renumber (out id : Nat) : Nat := if id < out then id else id - 1

theorem renumber_inj {out id other : Nat} (hid : id ≠ out) (hother : other ≠ out) :
    renumber out id = renumber out other ↔ id = other := by
  unfold renumber
  split <;> split <;> omega

theorem renumber_cases {out id : Nat} (hid : id ≠ out) :
    renumber out id = id ∨ (out ≤ id ∧ out ≤ renumber out id) := by
  unfold renumber
  split <;> omega

theorem renumber_succ {out id : Nat} (h : out ≤ id) : renumber out (id + 1) = id := by
  unfold renumber
  rw [if_neg (by omega), Nat.add_sub_cancel]

/-- The same answer, but for the number of a transaction that there is not, and for the conflict that is named. -/
inductive Alike (out : TxId) {α : Type} : Except Error α → Except Error α → Prop
  | same (answer : Except Error α) : Alike out answer answer
  | conflicts (message message' : String) : Alike out (.error (.optimisticLock message)) (.error (.optimisticLock message'))
  | absent (id : TxId) : Alike out (.error (StoreError.noSuchTransaction id).toError)
      (.error (StoreError.noSuchTransaction (renumber out id)).toError)

/-! ## Storages -/

namespace Storage

/-- The second storage is the first one without the transaction `out`, but for lines under keys that are planted. -/
structure Lacks (out : TxId) (planted : κ → Cells X → Prop) (s s' : Storage C) : Prop where
  sound : s.Sound
  sound' : s'.Sound
  version : s'.version = s.version
  draft : ∀ id ≠ out, ∀ k c, s'.draft? (renumber out id) k c = s.draft? id k c
  published : ∀ v k c, s'.published v k c = s.published v k c
  stale : ∀ v k c, s'.isStale v k c = s.isStale v k c
  touched : ∀ id ≠ out, s'.touched.contains (renumber out id) = s.touched.contains id
  line : ∀ k c, s'.hasLine k c = true → s.hasLine k c = true
  planted : ∀ k c, s.hasLine k c = true → s'.hasLine k c = true ∨ planted k c

namespace Lacks

variable {out id : TxId} {planted planted' : κ → Cells X → Prop} {s s' t : Storage C}

theorem read (h : s.Lacks out planted s') (hid : id ≠ out) (v : Nat) (k : κ) (c : Cells X) :
    s'.read (renumber out id) v k c = s.read id v k c := by
  rw [read_eq, read_eq, h.draft id hid, h.published]

theorem hasLine (h : s.Lacks out planted s') {k : κ} {c : Cells X} (hp : ¬planted k c) :
    s'.hasLine k c = s.hasLine k c :=
  Bool.eq_iff_iff.2 ⟨h.line k c, fun hl => (h.planted k c hl).resolve_right hp⟩

/-- **A write of another transaction comes to the same**, unless it deletes under a planted key. -/
theorem write (h : s.Lacks out planted s') (hid : id ≠ out) (v : Nat) (k : κ) (w : Write (C k))
    (hdel : w.change = .delete → ¬planted k w.cells) :
    (s'.write (renumber out id) v k w).1 = (s.write id v k w).1 ∧
      (s.write id v k w).2.Lacks out planted (s'.write (renumber out id) v k w).2 := by
  have hread := h.read hid v k w.cells
  have hlands : s'.lands (renumber out id) v k w = s.lands id v k w := by
    -- an insertion looks at the row, a deletion at the line
    rw [lands_eq, lands_eq, hread]
    cases hw : w.change with
    | insert e => rfl
    | save e => rfl
    | delete => exact h.hasLine (hdel hw)
  have hline := hasLine_write h.sound id v k (w := w)
  have hline' := hasLine_write h.sound' (renumber out id) v k (w := w)
  refine ⟨by rw [fst_write, fst_write, hread], ⟨sound_write h.sound .., sound_write h.sound' .., ?_, ?_, ?_, ?_, ?_, ?_, ?_⟩⟩
  · rw [version_write, version_write, h.version]
  · intro other hother j c
    by_cases hk : k = j
    · subst hk
      rw [draft?_write_self h.sound, draft?_write_self h.sound', hlands, h.draft other hother]
      simp only [renumber_inj hid hother]
    · rw [draft?_write_of_ne _ _ _ _ hk, draft?_write_of_ne _ _ _ _ hk, h.draft other hother]
  · intro u j c
    rw [published_write h.sound, published_write h.sound', h.published]
  · intro u j c
    rw [isStale_write h.sound, isStale_write h.sound', h.stale]
  · intro other hother
    rw [contains_touched_write, contains_touched_write, h.touched other hother]
    simp only [renumber_inj hid hother]
  · intro j c hl
    rw [hline', hlands] at hl
    exact (hline j c).2 (hl.imp_left (h.line j c))
  · intro j c hl
    rw [hline', hlands, or_right_comm]
    exact ((hline j c).1 hl).imp_left (h.planted j c)

/-- **Another transaction publishes the same.** -/
theorem publish (h : s.Lacks out planted s') (hid : id ≠ out) :
    (s.publish id).Lacks out planted (s'.publish (renumber out id)) where
  sound := sound_publish h.sound id
  sound' := sound_publish h.sound' _
  version := congrArg (· + 1) h.version
  draft other hother k c := by
    rw [draft?_publish h.sound, draft?_publish h.sound', h.draft other hother]
    simp only [renumber_inj hid hother]
  published v k c := by
    rw [published_publish h.sound, published_publish h.sound', h.version, h.read hid, h.published]
  stale v k c := by
    rw [isStale_publish h.sound, isStale_publish h.sound', h.draft id hid, h.version, h.stale]
  touched other hother := by
    show (s'.touched.erase _).contains _ = (s.touched.erase id).contains other
    rw [Dict.contains_erase, Dict.contains_erase, h.touched other hother]
    simp only [renumber_inj hid hother]
  line k c := by
    rw [hasLine_publish h.sound, hasLine_publish h.sound']
    exact h.line k c
  planted k c := by
    rw [hasLine_publish h.sound, hasLine_publish h.sound']
    exact h.planted k c

theorem rollback (h : s.Lacks out planted s') (hid : id ≠ out) :
    (s.rollback id).Lacks out planted (s'.rollback (renumber out id)) where
  sound := sound_rollback h.sound id
  sound' := sound_rollback h.sound' _
  version := h.version
  draft other hother k c := by
    rw [draft?_rollback h.sound, draft?_rollback h.sound', h.draft other hother]
    simp only [renumber_inj hid hother]
  published v k c := by rw [published_rollback h.sound, published_rollback h.sound', h.published]
  stale v k c := by rw [isStale_rollback h.sound, isStale_rollback h.sound', h.stale]
  touched other hother := by
    show (s'.touched.erase _).contains _ = (s.touched.erase id).contains other
    rw [Dict.contains_erase, Dict.contains_erase, h.touched other hother]
    simp only [renumber_inj hid hother]
  line k c := by
    rw [hasLine_rollback h.sound, hasLine_rollback h.sound']
    exact h.line k c
  planted k c := by
    rw [hasLine_rollback h.sound, hasLine_rollback h.sound']
    exact h.planted k c

/-- **Another transaction gets through a commit, or meets a conflict, in both.** -/
theorem commit (h : s.Lacks out planted s') (hid : id ≠ out) (v : Nat) (locks : Locks X κ) :
    (∃ t t', s.commit id v locks = .ok t ∧ s'.commit (renumber out id) v locks = .ok t' ∧ t.Lacks out planted t') ∨
      ∃ e e' message message', s.commit id v locks = .error e ∧ s'.commit (renumber out id) v locks = .error e' ∧
        e.toError = .optimisticLock message ∧ e'.toError = .optimisticLock message' := by
  -- the tables may be there in another order, so that the first conflict is not the same one
  have hlocks : s'.checkLocks v locks s'.shards.keys = .ok () ↔ s.checkLocks v locks s.shards.keys = .ok () := by
    rw [h.sound.checkLocks_eq_ok_iff, h.sound'.checkLocks_eq_ok_iff]
    simp only [h.stale]
  have htouched := h.touched id hid
  rcases s.commit_cases id v locks with ⟨ht, hc⟩ | ⟨ht, e, he, hc⟩ | ⟨ht, hl, hc⟩
  · have hc' : s'.commit (renumber out id) v locks = .ok s' := by
      unfold Storage.commit
      rw [htouched, ht]
      rfl
    exact .inl ⟨s, s', hc, hc', h⟩
  · obtain ⟨e', he'⟩ : ∃ e', s'.checkLocks v locks s'.shards.keys = .error e' := by
      cases hl' : s'.checkLocks v locks s'.shards.keys with
      | error e' => exact ⟨e', rfl⟩
      | ok u =>
        rw [hlocks.1 hl'] at he
        cases he
    have hc' : s'.commit (renumber out id) v locks = .error e' := by
      unfold Storage.commit
      rw [htouched, ht, he']
      rfl
    obtain ⟨message, hm⟩ := toError_of_checkLocks he
    obtain ⟨message', hm'⟩ := toError_of_checkLocks he'
    exact .inr ⟨e, e', message, message', hc, hc', hm, hm'⟩
  · have hc' : s'.commit (renumber out id) v locks = .ok (s'.publish (renumber out id)) := by
      unfold Storage.commit
      rw [htouched, ht, hlocks.2 hl]
      rfl
    exact .inl ⟨_, _, hc, hc', h.publish hid⟩

theorem settled (h : s.Lacks out planted s') : s.settled.Lacks out planted s'.settled where
  sound := sound_settled h.sound
  sound' := sound_settled h.sound'
  version := h.version
  draft id _ k c := by rw [draft?_settled, draft?_settled]
  published v k c := by rw [published_settled, published_settled, h.published]
  stale v k c := by rw [isStale_settled, isStale_settled, h.stale]
  touched _ _ := rfl
  line k c := by
    rw [hasLine_settled, hasLine_settled]
    exact h.line k c
  planted k c := by
    rw [hasLine_settled, hasLine_settled]
    exact h.planted k c

/-- **What `out` does without publishing is not missed**, if the lines that it makes count as planted. -/
theorem moves (h : s.Lacks out planted s') (hm : Moves out s t) (hv : t.version = s.version)
    (hp : ∀ k c, planted k c → planted' k c)
    (hnew : ∀ k c, s.hasLine k c = false → t.hasLine k c = true → planted' k c) : t.Lacks out planted' s' where
  sound := hm.sound h.sound
  sound' := h.sound'
  version := h.version.trans hv.symm
  draft id hid k c := (h.draft id hid k c).trans (hm.draft?_eq h.sound (Ne.symm hid) k c).symm
  published v k c := (h.published v k c).trans (hm.published_eq_of_version h.sound hv v k c).symm
  stale v k c := (h.stale v k c).trans (hm.isStale_eq h.sound hv v k c).symm
  touched id hid := (h.touched id hid).trans (congrArg Option.isSome (hm.touched_eq (Ne.symm hid)).symm)
  line k c hl := hm.hasLine_of_hasLine h.sound (h.line k c hl)
  planted k c hl := by
    cases hs : s.hasLine k c with
    | true => exact (h.planted k c hs).imp_right (hp k c)
    | false => exact .inr (hnew k c hs hl)

end Lacks

end Storage

/-! ## Sessions -/

/-- A transaction but for its number and its log. -/
def Transaction.face (t : Transaction C) : Transaction C := { t with id := 0, log := { level := .off } }

namespace Session

theorem conflict?_eq (s : Session C) (k : κ) :
    s.conflict? k =
      if s.tx.hasWritten then
        match ((s.storage.shard? k).getD {}).checkLocks s.version (s.tx.locks.on k) with
        | .error e => some e
        | .ok () => none
      else none := by
  unfold conflict?
  cases s.tx.hasWritten with
  | false => rfl
  | true =>
    cases s.storage.shard? k with
    | none =>
      have hok : ({} : Shard (C k)).checkLocks s.version (s.tx.locks.on k) = .ok () :=
        (Shard.checkLocks_eq_ok_iff (Shard.sound_empty 0) ..).2 fun _ _ => rfl
      rw [Option.getD_none, hok]
      rfl
    | some shard => rfl

/-- The sessions of one transaction, beside `out` and without it. -/
structure Lacks (out : TxId) (planted : κ → Cells X → Prop) (s s' : Session C) : Prop where
  face : s'.tx.face = s.tx.face
  id : s'.tx.id = renumber out s.tx.id
  other : s.tx.id ≠ out
  storage : s.storage.Lacks out planted s'.storage

namespace Lacks

variable {out : TxId} {planted : κ → Cells X → Prop} {s s' : Session C}

theorem options (h : Lacks out planted s s') : s'.tx.options = s.tx.options := (congrArg Transaction.options h.face :)

theorem locks (h : Lacks out planted s s') : s'.tx.locks = s.tx.locks := (congrArg Transaction.locks h.face :)

theorem pending (h : Lacks out planted s s') : s'.tx.pending = s.tx.pending := (congrArg Transaction.pending h.face :)

theorem closedBy (h : Lacks out planted s s') : s'.tx.closedBy = s.tx.closedBy :=
  (congrArg Transaction.closedBy h.face :)

theorem home (h : Lacks out planted s s') : s'.tx.home = s.tx.home := (congrArg Transaction.home h.face :)

theorem version (h : Lacks out planted s s') : s'.version = s.version := by
  have hsnapshot : s'.tx.snapshot = s.tx.snapshot := (congrArg Transaction.snapshot h.face :)
  unfold Session.version
  rw [hsnapshot, h.storage.version]

theorem row (h : Lacks out planted s s') (k : κ) (c : Cells X) : s'.row k c = s.row k c := by
  unfold Session.row
  rw [h.id, h.version]
  exact h.storage.read h.other s.version k c

/-! ### Steps -/

theorem change (h : Lacks out planted s s') {t t' : Transaction C} (hface : t'.face = t.face) (ht : t.id = s.tx.id)
    (ht' : t'.id = s'.tx.id) : Lacks out planted { s with tx := t } { s' with tx := t' } :=
  ⟨hface, ht'.trans (h.id.trans (congrArg _ ht.symm)), fun he => h.other (ht.symm.trans he), h.storage⟩

theorem log (h : Lacks out planted s s') (l l' : TxLog) :
    Lacks out planted { s with tx := { s.tx with log := l } } { s' with tx := { s'.tx with log := l' } } :=
  h.change h.face rfl rfl

theorem logStatement {α : Type} (h : Lacks out planted s s') (action : String) (summary : α → String)
    (r r' : Except Error α) :
    Lacks out planted (s.logStatement action summary r) (s'.logStatement action summary r') := by
  cases r <;> cases r' <;> exact h.log ..

theorem lockRow (h : Lacks out planted s s') (k : κ) (c : Cells X) : Lacks out planted (s.lockRow k c) (s'.lockRow k c) :=
  h.change (congrArg (fun t : Transaction C => { t with locks := t.locks.lockRow k c }) h.face) rfl rfl

theorem lockScan (h : Lacks out planted s s') (k : κ) (scan : Scan X) :
    Lacks out planted (s.lockScan k scan) (s'.lockScan k scan) :=
  h.change (congrArg (fun t : Transaction C => { t with locks := t.locks.lockScan k scan }) h.face) rfl rfl

theorem setCache (h : Lacks out planted s s') (k : κ) (c : Cache (C k)) :
    Lacks out planted (s.setCache k c) (s'.setCache k c) :=
  h.change (congrArg (fun t : Transaction C => t.setCache k c) h.face) rfl rfl

theorem openTable (h : Lacks out planted s s') (k : κ) : Lacks out planted (s.openTable k) (s'.openTable k) := by
  have hcaches : s'.tx.caches = s.tx.caches := (congrArg Transaction.caches h.face :)
  unfold Session.openTable
  rw [hcaches, h.options]
  split
  · exact h
  · exact h.setCache k _

theorem pin (h : Lacks out planted s s') : Lacks out planted s.pin s'.pin := by
  unfold Session.pin
  rw [h.version]
  exact h.change (congrArg (fun t : Transaction C => { t with snapshot := some s.version }) h.face) rfl rfl

theorem discard (h : Lacks out planted s s') : Lacks out planted s.discard s'.discard := by
  unfold Session.discard
  rw [h.id]
  exact ⟨h.face, h.id, h.other, h.storage.rollback h.other⟩

theorem conflict? (h : Lacks out planted s s') (k : κ) : s'.conflict? k = s.conflict? k := by
  have hwritten : s'.tx.hasWritten = s.tx.hasWritten := (congrArg Transaction.hasWritten h.face :)
  have hcheck := Shard.checkLocks_congr (h.storage.sound.getD k) (h.storage.sound'.getD k) (v := s.version)
    (fun c => by rw [← Storage.isStale_eq_getD, ← Storage.isStale_eq_getD, h.storage.stale]) (s.tx.locks.on k)
  rw [conflict?_eq, conflict?_eq, hwritten, h.version, h.locks, hcheck]

theorem read {α : Type} (h : Lacks out planted s s') (k : κ) (action : String) (summary : α → String)
    (f f' : Option (Shard (C k)) → Nat → Except Error α)
    (hf : s.tx.closedBy = none → f (s.storage.shard? k) s.version = f' (s'.storage.shard? k) s'.version) :
    Matches (Lacks out planted) (s.read k action summary f) (s'.read k action summary f') := by
  unfold Session.read Transaction.ensureActive
  rw [h.closedBy]
  cases hc : s.tx.closedBy with
  | some closing => exact ⟨rfl, h⟩
  | none =>
    dsimp only
    rw [h.pin.conflict? k]
    cases s.pin.conflict? k with
    | some e =>
      dsimp only
      refine .of (logStatement ?_ ..)
      exact h.pin.change (congrArg (fun t : Transaction C => { t with invalidated := true }) h.pin.face) rfl rfl
    | none => exact ⟨hf hc, h.pin.logStatement ..⟩

theorem apply (h : Lacks out planted s s') (action : String) (k : κ) (w : Write (C k))
    (hdel : w.change = .delete → ¬planted k w.cells) :
    Matches (Lacks out planted) (s.apply action k w) (s'.apply action k w) := by
  have hpin := h.pin
  have hwrite := hpin.storage.write hpin.other s.pin.version k w hdel
  rw [← hpin.id] at hwrite
  unfold Session.apply
  dsimp only
  rw [hpin.version]
  generalize s.pin.storage.write s.pin.tx.id s.pin.version k w = r at hwrite
  generalize s'.pin.storage.write s'.pin.tx.id s.pin.version k w = r' at hwrite
  obtain ⟨answer, storage⟩ := r
  obtain ⟨answer', storage'⟩ := r'
  obtain ⟨hfst, hstorage⟩ := hwrite
  dsimp only at hfst hstorage
  subst hfst
  have hnext : Lacks out planted { s.pin with storage } { s'.pin with storage := storage' } :=
    ⟨hpin.face, hpin.id, hpin.other, hstorage⟩
  cases answer' with
  | error e =>
    dsimp only
    exact .of (hnext.logStatement ..)
  | ok u =>
    dsimp only
    refine .of (logStatement ?_ ..)
    exact hnext.change (congrArg (fun t : Transaction C => { t with hasWritten := true }) hpin.face) rfl rfl

theorem write (h : Lacks out planted s s') (action : String) (k : κ) (w : Write (C k))
    (hdel : s.tx.options.isImmediate = true → w.change = .delete → ¬planted k w.cells) :
    Matches (Lacks out planted) (s.write action k w) (s'.write action k w) := by
  have hmutable : s'.tx.ensureMutable = s.tx.ensureMutable := (congrArg Transaction.ensureMutable h.face :)
  unfold Session.write Transaction.ensureActive
  rw [h.closedBy, hmutable, h.options]
  cases s.tx.closedBy with
  | some closing => exact ⟨rfl, h⟩
  | none =>
    dsimp only
    cases s.tx.ensureMutable with
    | error e => exact ⟨rfl, h⟩
    | ok u =>
      dsimp only
      split
      · rename_i hi
        exact h.apply action k w (hdel hi)
      · refine ⟨rfl, h.change ?_ rfl rfl⟩
        exact congrArg (fun t : Transaction C => { t with pending := t.pending ++ [(⟨action, k, w⟩ : Pending C)] }) h.face

theorem congruence (out : TxId) (planted : κ → Cells X → Prop) : Congruence (Lacks (C := C) out planted) where
  cache h k := (congrArg (fun t : Transaction C => t.cache k) h.face).symm
  limits h := congrArg TxOptions.scan h.options.symm
  sound h := ⟨h.storage.sound, h.storage.sound'⟩
  lockRow h := h.lockRow
  lockScan h := h.lockScan
  setCache h := h.setCache
  openTable h := h.openTable
  read h := h.read

/-- **A statement of another transaction comes to the same**, unless it deletes under a planted key. -/
theorem run (h : Lacks out planted s s') (op : TableOp C)
    (hdel : ∀ k c, s.tx.options.isImmediate = true → op.write? = some ⟨k, c, .delete⟩ → ¬planted k c) :
    Matches (Lacks out planted) (op.run s) (op.run s') := by
  refine op.run_congruence (congruence out planted) h (fun _ _ k c _ => (h.row k c).symm) ?_
  intro t t' w action hop ht hreads _
  refine ht.write action w.kind w.write fun hi hw => ?_
  obtain ⟨k, c, change⟩ := w
  dsimp only at hw
  subst hw
  exact hdel k c (hreads.options ▸ hi) hop

/-! ### The end of a transaction -/

theorem applyAll : ∀ (queue : List (Pending C)) {s s' : Session C}, Lacks out planted s s' →
    (∀ p ∈ queue, p.write.change = .delete → ¬planted p.kind p.write.cells) →
      Matches (Lacks out planted) (s.applyAll queue) (s'.applyAll queue)
  | [], _, _, h, _ => ⟨rfl, h⟩
  | p :: rest, s, s', h, hdel => by
    have hfirst := h.apply p.action p.kind p.write (hdel p List.mem_cons_self)
    rw [Session.applyAll, Session.applyAll]
    generalize s.apply p.action p.kind p.write = r at hfirst
    generalize s'.apply p.action p.kind p.write = r' at hfirst
    obtain ⟨answer, t⟩ := r
    obtain ⟨answer', t'⟩ := r'
    obtain ⟨rfl, ht⟩ := hfirst
    cases answer with
    | error e => exact ⟨rfl, ht⟩
    | ok u => exact applyAll rest ht fun p hp => hdel p (List.mem_cons_of_mem _ hp)

theorem commitWrites (h : Lacks out planted s s')
    (hdel : ∀ p ∈ s.tx.pending, p.write.change = .delete → ¬planted p.kind p.write.cells) :
    Alike out s.commitWrites.1 s'.commitWrites.1 ∧ Lacks out planted s.commitWrites.2 s'.commitWrites.2 := by
  have hstart : Lacks out planted { s with tx := { s.tx with pending := [] } }
      { s' with tx := { s'.tx with pending := [] } } :=
    h.change (congrArg (fun t : Transaction C => { t with pending := [] }) h.face) rfl rfl
  have hreplay := hstart.applyAll s.tx.pending hdel
  unfold Session.commitWrites
  rw [h.pending]
  dsimp only
  generalize Session.applyAll _ s.tx.pending = r at hreplay
  generalize Session.applyAll _ s.tx.pending = r' at hreplay
  obtain ⟨answer, t⟩ := r
  obtain ⟨answer', t'⟩ := r'
  obtain ⟨rfl, ht⟩ := hreplay
  cases answer with
  | error e => exact ⟨.same _, ht.discard⟩
  | ok u =>
    have hpin := ht.pin
    dsimp only
    rw [hpin.id, hpin.version, hpin.locks]
    rcases hpin.storage.commit hpin.other t.pin.version t.pin.tx.locks with
      ⟨u, u', hc, hc', hu⟩ | ⟨e, e', message, message', hc, hc', hm, hm'⟩
    · rw [hc, hc']
      exact ⟨.same _, hpin.face, hpin.id, hpin.other, hu⟩
    · rw [hc, hc']
      dsimp only
      rw [hm, hm']
      exact ⟨.conflicts message message', hpin.discard⟩

theorem close (h : Lacks out planted s s') (closing : Closing) {finish : Session C → Except Error Unit × Session C}
    (hf : Alike out (finish s).1 (finish s').1 ∧ Lacks out planted (finish s).2 (finish s').2) :
    Alike out (s.close closing finish).1 (s'.close closing finish).1 ∧
      Lacks out planted (s.close closing finish).2 (s'.close closing finish).2 := by
  have hend : ∀ {t t' : Session C}, Lacks out planted t t' → ∀ message : String,
      Lacks out planted ({ t with tx := { t.tx with closedBy := some closing } }.logInfo message)
        ({ t' with tx := { t'.tx with closedBy := some closing } }.logInfo message) := by
    intro t t' ht message
    have hclosed : Lacks out planted { t with tx := { t.tx with closedBy := some closing } }
        { t' with tx := { t'.tx with closedBy := some closing } } :=
      ht.change (congrArg (fun t : Transaction C => { t with closedBy := some closing }) ht.face) rfl rfl
    exact hclosed.log ..
  unfold Session.close Transaction.ensureActive
  rw [h.closedBy, h.options]
  cases s.tx.closedBy with
  | some closing => exact ⟨.same _, h⟩
  | none =>
    cases s.tx.options.isScan with
    | true => exact ⟨.same _, hend (h.log ..) _⟩
    | false =>
      cases s.tx.options.isReadOnly with
      | true => exact ⟨.same _, hend (h.log ..) _⟩
      | false => exact ⟨hf.1, hend (hf.2.logStatement ..) _⟩

/-- **A commit of another transaction comes to the same**, unless it has queued a deletion under a planted key. -/
theorem commit (h : Lacks out planted s s')
    (hdel : ∀ p ∈ s.tx.pending, p.write.change = .delete → ¬planted p.kind p.write.cells) :
    Alike out s.commit.1 s'.commit.1 ∧ Lacks out planted s.commit.2 s'.commit.2 := by
  have hinvalidated : s'.tx.invalidated = s.tx.invalidated := (congrArg Transaction.invalidated h.face :)
  unfold Session.commit
  rw [hinvalidated]
  split
  · exact ⟨.same _, h⟩
  · exact h.close .commit (h.commitWrites hdel)

theorem rollback (h : Lacks out planted s s') :
    Alike out s.rollback.1 s'.rollback.1 ∧ Lacks out planted s.rollback.2 s'.rollback.2 :=
  h.close .rollback ⟨.same _, discard
    (h.change (congrArg (fun t : Transaction C => { t with pending := [] }) h.face) rfl rfl)⟩

theorem release (h : Lacks out planted s s') : Lacks out planted s.release s'.release := by
  unfold Session.release
  rw [h.closedBy]
  split
  · exact h.discard
  · exact h

end Lacks

end Session

end EntityStore

import EntityStore.Proofs.Shards
import EntityStore.Store.Storage
/-!
# What a storage shows

The statements of `Proofs/Shards` for all tables at once: what a write, a publication and a rollback do to the drafts
of the transactions, to the published rows and to the lines that a lock finds stale.  A write lands if it leaves a
draft (`Write.lands`): an insertion that is refused and a deletion under a key without a line leave none.  A commit is
one of three things (`commit_cases`): nothing to do, a conflict, or a publication of everything the transaction has
drafted.
-/
namespace EntityStore

variable {X : Scalars}

/-- The row that a change leaves, if any. -/
def Change.row? {E : EntityType X} : Change E → Option E.Entity
  | .insert e => some e
  | .save e => some e
  | .delete => none

namespace Write

variable {E : EntityType X}

/-- Whether a write leaves a draft. -/
def lands (w : Write E) (tx : TxId) (v : Nat) (shard : Shard E) : Bool :=
  match w.change with
  | .insert _ => (shard.read tx v w.cells).isNone
  | .save _ => true
  | .delete => shard.hasLine w.cells

theorem draft?_applyTo {u : Nat} {shard : Shard E} (h : shard.Sound u) (w : Write E) (tx other : TxId) (v : Nat)
    (c : Cells X) :
    (w.applyTo tx v shard).2.draft? other c =
      if w.lands tx v shard = true ∧ tx = other ∧ w.cells = c then some w.change.row? else shard.draft? other c := by
  unfold applyTo lands
  cases hw : w.change with
  | insert e =>
    cases hr : shard.read tx v w.cells with
    | none => simpa [Change.row?] using Shard.draft?_put h tx other w.cells c e
    | some old => simp
  | save e => simpa [Change.row?] using Shard.draft?_put h tx other w.cells c e
  | delete =>
    have := Shard.draft?_delete h tx other w.cells c
    simp only [Change.row?]
    rw [this]
    by_cases hl : shard.hasLine w.cells = true <;> simp [hl]

theorem published_applyTo {u : Nat} {shard : Shard E} (h : shard.Sound u) (w : Write E) (tx : TxId) (v v' : Nat)
    (c : Cells X) : (w.applyTo tx v shard).2.published v' c = shard.published v' c := by
  unfold applyTo
  cases w.change with
  | insert e =>
    cases shard.read tx v w.cells with
    | none => exact Shard.published_put h ..
    | some old => rfl
  | save e => exact Shard.published_put h ..
  | delete => exact Shard.published_delete h ..

theorem isStale_applyTo {u : Nat} {shard : Shard E} (h : shard.Sound u) (w : Write E) (tx : TxId) (v v' : Nat)
    (c : Cells X) : (w.applyTo tx v shard).2.isStale v' c = shard.isStale v' c := by
  unfold applyTo
  cases w.change with
  | insert e =>
    cases shard.read tx v w.cells with
    | none => exact Shard.isStale_put h ..
    | some old => rfl
  | save e => exact Shard.isStale_put h ..
  | delete => exact Shard.isStale_delete h ..

theorem hasLine_applyTo {u : Nat} {shard : Shard E} (h : shard.Sound u) (w : Write E) (tx : TxId) (v : Nat)
    (c : Cells X) :
    (w.applyTo tx v shard).2.hasLine c = true ↔
      shard.hasLine c = true ∨ (w.lands tx v shard = true ∧ w.cells = c) := by
  unfold applyTo lands
  cases w.change with
  | insert e =>
    cases shard.read tx v w.cells with
    | none => simpa using Shard.hasLine_put h.ascending tx w.cells c e
    | some old => simp
  | save e => simpa using Shard.hasLine_put h.ascending tx w.cells c e
  | delete =>
    dsimp only
    rw [Shard.hasLine_delete h.ascending]
    refine ⟨.inl, fun hc => hc.elim id ?_⟩
    rintro ⟨hl, rfl⟩
    exact hl

theorem sound_applyTo {u : Nat} {shard : Shard E} (h : shard.Sound u) (w : Write E) (tx : TxId) (v : Nat) :
    (w.applyTo tx v shard).2.Sound u := by
  unfold applyTo
  cases w.change with
  | insert e =>
    cases shard.read tx v w.cells with
    | none => exact Shard.sound_put h ..
    | some old => exact h
  | save e => exact Shard.sound_put h ..
  | delete => exact Shard.sound_delete h ..

end Write

variable {κ : Type} [DecidableEq κ]

/-! ## Locks -/

/-- Whether the locks on a table cover a key. -/
def TableLocks.covers (l : TableLocks X) (c : Cells X) : Bool :=
  l.rows.contains c || l.scans.any (fun scan => scan.covers c)

/-- Whether locks cover a key of a table. -/
def Locks.covers (l : Locks X κ) (k : κ) (c : Cells X) : Bool := (l.on k).covers c

theorem Shard.any_hasYounger_iff {E : EntityType X} {u : Nat} {s : Shard E} (h : s.Sound u) (v : Nat)
    (test : Cells X → Bool) :
    s.lines.any (fun p => p.2.hasYounger v && test p.1) = true ↔ ∃ c, test c = true ∧ s.isStale v c = true := by
  have hline : ∀ c line, (c, line) ∈ s.lines ↔ s.line? c = some line := fun c line => mem_iff_findLine h.ascending
  unfold Shard.isStale
  simp only [List.any_eq_true, Bool.and_eq_true, Prod.exists, hline, Option.any_eq_true]
  constructor
  · rintro ⟨c, line, hl, hy, ht⟩
    exact ⟨c, ht, line, hl, hy⟩
  · rintro ⟨c, ht, line, hl, hy⟩
    exact ⟨c, line, hl, hy, ht⟩

theorem Shard.checkLocks_congr {E : EntityType X} {u u' : Nat} {s s' : Shard E} (h : s.Sound u) (h' : s'.Sound u') {v : Nat}
    (hstale : ∀ c, s'.isStale v c = s.isStale v c) (l : TableLocks X) : s'.checkLocks v l = s.checkLocks v l := by
  have hrows : s'.isStale v = s.isStale v := funext hstale
  have hscans : s'.lines.any (fun p => p.2.hasYounger v && l.scans.any (fun scan => scan.covers p.1)) =
      s.lines.any (fun p => p.2.hasYounger v && l.scans.any (fun scan => scan.covers p.1)) := by
    have hkeys := any_hasYounger_iff h v (fun c => l.scans.any (fun scan => scan.covers c))
    have hkeys' := any_hasYounger_iff h' v (fun c => l.scans.any (fun scan => scan.covers c))
    simp only [hstale] at hkeys'
    exact Bool.eq_iff_iff.2 (hkeys'.trans hkeys.symm)
  unfold checkLocks
  rw [hrows, hscans]

/-- **The locks on a table hold exactly if no key that they cover has a younger version.** -/
theorem Shard.checkLocks_eq_ok_iff {E : EntityType X} {u : Nat} {s : Shard E} (h : s.Sound u) (v : Nat) (l : TableLocks X) :
    s.checkLocks v l = .ok () ↔ ∀ c, l.covers c = true → s.isStale v c = false := by
  have hscan : s.lines.any (fun p => p.2.hasYounger v && l.scans.any (fun scan => scan.covers p.1)) = false ↔
      ∀ c, l.scans.any (fun scan => scan.covers c) = true → s.isStale v c = false := by
    rw [← Bool.not_eq_true, any_hasYounger_iff h v (fun c => l.scans.any (fun scan => scan.covers c))]
    simp
  unfold Shard.checkLocks
  constructor
  · intro hok c hc
    split at hok
    · cases hok
    · rename_i hrows
      split at hok
      · cases hok
      · rename_i hs
        rcases Bool.or_eq_true_iff.1 hc with hr | hr
        · have := List.find?_eq_none.1 hrows c (by simpa using hr)
          simpa using this
        · exact hscan.1 (by simpa using hs) c hr
  · intro hc
    have hrows : l.rows.find? (s.isStale v) = none := by
      rw [List.find?_eq_none]
      intro c hm
      rw [hc c (by simp [TableLocks.covers, hm])]
      simp
    rw [hrows]
    have := hscan.2 (fun c hs => hc c (by simp only [TableLocks.covers, hs, Bool.or_true]))
    simp only [this, Bool.false_eq_true, if_false]

namespace Storage

variable {C : κ → EntityType X}

/-- The unpublished row of a transaction under a key; a deletion is `some none`. -/
def draft? (s : Storage C) (tx : TxId) (k : κ) (c : Cells X) : Option (Option (C k).Entity) :=
  (s.shard? k).bind (fun shard => shard.draft? tx c)

/-- The row under a key as published by version `v`. -/
def published (s : Storage C) (v : Nat) (k : κ) (c : Cells X) : Option (C k).Entity :=
  (s.shard? k).bind (fun shard => shard.published v c)

/-- Whether there is a line for a key, with or without versions. -/
def hasLine (s : Storage C) (k : κ) (c : Cells X) : Bool := (s.shard? k).any (fun shard => shard.hasLine c)

/-- Whether the row under a key has a version younger than `v`. -/
def isStale (s : Storage C) (v : Nat) (k : κ) (c : Cells X) : Bool := (s.shard? k).any (fun shard => shard.isStale v c)

/-- Whether a write leaves a draft. -/
def lands (s : Storage C) (tx : TxId) (v : Nat) (k : κ) (w : Write (C k)) : Bool :=
  w.lands tx v ((s.shard? k).getD {})

/-- **A transaction sees its own draft, or else what its snapshot shows.** -/
theorem read_eq (s : Storage C) (tx : TxId) (v : Nat) (k : κ) (c : Cells X) :
    s.read tx v k c = (s.draft? tx k c).getD (s.published v k c) := by
  unfold read draft? published
  cases s.shard? k with
  | none => rfl
  | some shard => exact shard.read_eq tx v c

/-- Every shard is sound, and a transaction's drafts are in tables that it is known to have written to. -/
structure Sound (s : Storage C) : Prop where
  shard : ∀ k shard, s.shard? k = some shard → shard.Sound s.version
  tracked : ∀ tx k c, (s.draft? tx k c).isSome = true → k ∈ s.writtenKinds tx
  nodup : ∀ tx, (s.writtenKinds tx).Nodup

theorem sound_empty : ({} : Storage C).Sound where
  shard _ _ h := by cases h
  tracked _ _ _ h := by cases h
  nodup _ := List.nodup_nil

theorem Sound.getD {s : Storage C} (h : s.Sound) (k : κ) : ((s.shard? k).getD {}).Sound s.version := by
  cases hs : s.shard? k with
  | none => exact Shard.sound_empty _
  | some shard => exact h.shard k shard hs

theorem draft?_eq_getD (s : Storage C) (tx : TxId) (k : κ) (c : Cells X) :
    s.draft? tx k c = ((s.shard? k).getD {}).draft? tx c := by
  unfold draft?
  cases s.shard? k <;> rfl

theorem published_eq_getD (s : Storage C) (v : Nat) (k : κ) (c : Cells X) :
    s.published v k c = ((s.shard? k).getD {}).published v c := by
  unfold published
  cases s.shard? k <;> rfl

theorem isStale_eq_getD (s : Storage C) (v : Nat) (k : κ) (c : Cells X) :
    s.isStale v k c = ((s.shard? k).getD {}).isStale v c := by
  unfold isStale
  cases s.shard? k <;> rfl

theorem hasLine_eq_getD (s : Storage C) (k : κ) (c : Cells X) : s.hasLine k c = ((s.shard? k).getD {}).hasLine c := by
  unfold hasLine
  cases s.shard? k <;> rfl

theorem lands_eq (s : Storage C) (tx : TxId) (v : Nat) (k : κ) (w : Write (C k)) :
    s.lands tx v k w =
      match w.change with
      | .insert _ => (s.read tx v k w.cells).isNone
      | .save _ => true
      | .delete => s.hasLine k w.cells := by
  unfold lands Write.lands read hasLine
  cases w.change <;> cases s.shard? k <;> rfl

theorem Sound.isStale_of_le {s : Storage C} (h : s.Sound) {u : Nat} (hu : s.version ≤ u) (k : κ) (c : Cells X) :
    s.isStale u k c = false := by
  unfold isStale Shard.isStale
  cases hs : s.shard? k with
  | none => rfl
  | some shard =>
    cases hl : shard.line? c with
    | none => simp [hl]
    | some line =>
      simp only [Option.any_some, hl]
      unfold Line.hasYounger
      split
      · rfl
      · rename_i newest rest hv
        have := ((h.shard k shard hs).ordered c line hl).bounded newest (by rw [hv]; exact List.mem_cons_self)
        simpa using Nat.le_trans this hu

theorem published_of_isStale_eq_false {s : Storage C} {v w : Nat} {k : κ} {c : Cells X} (h : s.isStale v k c = false)
    (hvw : v ≤ w) : s.published w k c = s.published v k c := by
  unfold isStale Shard.isStale at h
  unfold published Shard.published
  cases hs : s.shard? k with
  | none => rfl
  | some shard =>
    cases hl : shard.line? c with
    | none => simp [hl]
    | some line =>
      simp only [hs, hl, Option.any_some] at h
      simp only [Option.bind_some, hl]
      exact Line.published_of_hasYounger_eq_false h hvw

theorem Sound.published_of_le {s : Storage C} (h : s.Sound) {u : Nat} (hu : s.version ≤ u) (k : κ) (c : Cells X) :
    s.published u k c = s.published s.version k c :=
  published_of_isStale_eq_false (h.isStale_of_le (Nat.le_refl _) k c) hu

theorem checkLocks_cons (s : Storage C) (v : Nat) (locks : Locks X κ) (k : κ) (rest : List κ) :
    s.checkLocks v locks (k :: rest) = .ok () ↔
      (∀ shard, s.shard? k = some shard → shard.checkLocks v (locks.on k) = .ok ()) ∧
        s.checkLocks v locks rest = .ok () := by
  rw [checkLocks]
  cases hs : s.shard? k with
  | none => simp
  | some shard => cases hc : shard.checkLocks v (locks.on k) <;> simp [hc]

theorem checkLocks_eq_ok_iff_forall (s : Storage C) (v : Nat) (locks : Locks X κ) : ∀ ks : List κ,
    s.checkLocks v locks ks = .ok () ↔
      ∀ k ∈ ks, ∀ shard, s.shard? k = some shard → shard.checkLocks v (locks.on k) = .ok ()
  | [] => by simp [checkLocks]
  | k :: rest => by rw [checkLocks_cons, checkLocks_eq_ok_iff_forall s v locks rest, List.forall_mem_cons]

/-- **A commit finds its locks good exactly if no key that they cover has a younger version, in any table.** -/
theorem Sound.checkLocks_eq_ok_iff {s : Storage C} (h : s.Sound) (v : Nat) (locks : Locks X κ) :
    s.checkLocks v locks s.shards.keys = .ok () ↔ ∀ k c, locks.covers k c = true → s.isStale v k c = false := by
  rw [checkLocks_eq_ok_iff_forall]
  constructor
  · intro hall k c hc
    unfold isStale
    cases hs : s.shard? k with
    | none => rfl
    | some shard =>
      have hk : k ∈ s.shards.keys := (s.shards.mem_keys k).2 (by
        unfold shard? at hs
        rw [hs]
        rfl)
      exact (Shard.checkLocks_eq_ok_iff (h.shard k shard hs) v _).1 (hall k hk shard hs) c hc
  · intro hall k _ shard hs
    refine (Shard.checkLocks_eq_ok_iff (h.shard k shard hs) v _).2 fun c hc => ?_
    have := hall k c hc
    unfold isStale at this
    simpa [hs] using this

theorem toError_of_checkLocks {s : Storage C} {v : Nat} {locks : Locks X κ} {e : StoreError} : ∀ {ks : List κ},
    s.checkLocks v locks ks = .error e → ∃ message, e.toError = .optimisticLock message
  | [], h => by cases h
  | k :: rest, h => by
    rw [checkLocks] at h
    split at h
    · exact toError_of_checkLocks h
    · rename_i shard hshard
      split at h
      · rename_i e' he
        cases h
        unfold Shard.checkLocks at he
        split at he
        · cases he
          exact ⟨_, rfl⟩
        · split at he
          · cases he
            exact ⟨_, rfl⟩
          · cases he
      · exact toError_of_checkLocks h

end Storage

end EntityStore

import EntityStore.Proofs.Closings
/-!
# What writes leave

`lastRow?` is the row that the last of some writes to a key leaves.  A storage that accepts writes shows just that to
their transaction (`Storage.read_write`, `Storage.read_replay`), whether each of them leaves a draft or not: the only
accepted write without a draft is a deletion under a key without a line, where nobody sees a row.
-/
namespace EntityStore

variable {X : Scalars} {κ : Type} [DecidableEq κ] {C : κ → EntityType X}

/-- The row that a write leaves under a key, if it is to that key; a deletion leaves `some none`. -/
def TableWrite.row? (w : TableWrite C) (k : κ) (c : Cells X) : Option (Option (C k).Entity) :=
  if h : w.kind = k then if w.write.cells = c then some (h ▸ w.write.change.row?) else none else none

/-- The row that the last of some writes to a key leaves, if any is to that key. -/
def lastRow? : List (TableWrite C) → (k : κ) → Cells X → Option (Option (C k).Entity)
  | [], _, _ => none
  | w :: rest, k, c => (lastRow? rest k c).or (w.row? k c)

theorem TableWrite.row?_self (k : κ) (w : Write (C k)) (c : Cells X) :
    (⟨k, w⟩ : TableWrite C).row? k c = if w.cells = c then some w.change.row? else none := by
  simp [row?]

theorem TableWrite.row?_of_ne {k j : κ} (h : k ≠ j) (w : Write (C k)) (c : Cells X) :
    (⟨k, w⟩ : TableWrite C).row? j c = none := by
  simp [row?, h]

theorem TableWrite.eq_of_row? {w : TableWrite C} {k : κ} {c : Cells X} {row : Option (C k).Entity}
    (h : w.row? k c = some row) : w.kind = k ∧ w.write.cells = c := by
  unfold row? at h
  split at h
  · rename_i hk
    split at h
    · rename_i hc
      exact ⟨hk, hc⟩
    · cases h
  · cases h

theorem lastRow?_append (ws us : List (TableWrite C)) (k : κ) (c : Cells X) :
    lastRow? (ws ++ us) k c = (lastRow? us k c).or (lastRow? ws k c) := by
  induction ws with
  | nil => simp [lastRow?]
  | cons w rest ih => rw [List.cons_append, lastRow?, ih, lastRow?, Option.or_assoc]

theorem exists_row?_of_lastRow? {k : κ} {c : Cells X} : ∀ {ws : List (TableWrite C)}, lastRow? ws k c ≠ none →
    ∃ w ∈ ws, w.row? k c ≠ none
  | [], h => absurd rfl h
  | w :: rest, h => by
    cases hw : w.row? k c with
    | some row => exact ⟨w, List.mem_cons_self, by rw [hw]; exact Option.some_ne_none row⟩
    | none =>
      rw [lastRow?, hw, Option.or_none] at h
      obtain ⟨w', hw', hrow⟩ := exists_row?_of_lastRow? h
      exact ⟨w', List.mem_cons_of_mem w hw', hrow⟩

theorem lastRow?_concat (ws : List (TableWrite C)) (w : TableWrite C) (k : κ) (c : Cells X) :
    lastRow? (ws ++ [w]) k c = (w.row? k c).or (lastRow? ws k c) := by
  rw [lastRow?_append]
  rfl

namespace Storage

theorem fst_write (s : Storage C) (tx : TxId) (v : Nat) (k : κ) (w : Write (C k)) :
    (s.write tx v k w).1 =
      match w.change with
      | .insert e =>
        if (s.read tx v k w.cells).isSome then .error (.entityAlreadyExists ((C k).idText ((C k).idOf e))) else .ok ()
      | _ => .ok () := by
  have hread : s.read tx v k w.cells = ((s.shard? k).getD {}).read tx v w.cells := by
    unfold read
    cases s.shard? k <;> rfl
  show (w.applyTo tx v ((s.shard? k).getD {})).1 = _
  unfold Write.applyTo
  rw [hread]
  cases w.change with
  | insert e => cases ((s.shard? k).getD {}).read tx v w.cells <;> rfl
  | save e => rfl
  | delete => rfl

theorem fst_write_eq_ok_iff (s : Storage C) (tx : TxId) (v : Nat) (k : κ) (w : Write (C k)) :
    (s.write tx v k w).1 = .ok () ↔ ∀ e, w.change = .insert e → s.read tx v k w.cells = none := by
  rw [fst_write]
  cases w.change with
  | insert e => cases s.read tx v k w.cells <;> simp
  | save e => simp
  | delete => simp

/-- A write that is accepted and leaves no draft is a deletion under a key without a line. -/
theorem eq_delete_of_lands_eq_false {s : Storage C} {tx : TxId} {v : Nat} {k : κ} {w : Write (C k)}
    (hok : (s.write tx v k w).1 = .ok ()) (hl : s.lands tx v k w = false) :
    w.change = .delete ∧ s.hasLine k w.cells = false := by
  rw [lands_eq] at hl
  cases hw : w.change with
  | insert e =>
    rw [hw, (fst_write_eq_ok_iff s tx v k w).1 hok e hw] at hl
    cases hl
  | save e =>
    rw [hw] at hl
    cases hl
  | delete =>
    rw [hw] at hl
    exact ⟨rfl, hl⟩

theorem lands_of_refused {s : Storage C} {tx : TxId} {v : Nat} {k : κ} {w : Write (C k)}
    (h : (s.write tx v k w).1 ≠ .ok ()) : s.lands tx v k w = false := by
  rw [Ne, fst_write_eq_ok_iff] at h
  simp only [Classical.not_forall] at h
  obtain ⟨e, hw, hread⟩ := h
  rw [lands_eq, hw]
  dsimp only
  rw [Option.isNone_eq_false_iff, Option.isSome_iff_ne_none]
  exact hread

theorem draft?_write_of_refused {s : Storage C} (hs : s.Sound) {tx : TxId} {v : Nat} {k : κ} {w : Write (C k)}
    (h : (s.write tx v k w).1 ≠ .ok ()) (other : TxId) (j : κ) (c : Cells X) :
    (s.write tx v k w).2.draft? other j c = s.draft? other j c := by
  by_cases hk : k = j
  · subst hk
    rw [draft?_write_self hs, lands_of_refused h]
    simp
  · exact draft?_write_of_ne s tx other v hk w c

theorem draft?_of_hasLine_eq_false {s : Storage C} {k : κ} {c : Cells X} (h : s.hasLine k c = false) (tx : TxId) :
    s.draft? tx k c = none := by
  unfold hasLine at h
  unfold draft?
  cases hs : s.shard? k with
  | none => rfl
  | some shard =>
    rw [hs] at h
    have h : (shard.line? c).isSome = false := h
    rw [Option.isSome_eq_false_iff, Option.isNone_iff_eq_none] at h
    simp [Shard.draft?, h]

theorem published_of_hasLine_eq_false {s : Storage C} {k : κ} {c : Cells X} (h : s.hasLine k c = false) (u : Nat) :
    s.published u k c = none := by
  unfold hasLine at h
  unfold published
  cases hs : s.shard? k with
  | none => rfl
  | some shard =>
    rw [hs] at h
    have h : (shard.line? c).isSome = false := h
    rw [Option.isSome_eq_false_iff, Option.isNone_iff_eq_none] at h
    simp [Shard.published, h]

/-- **A write that is accepted shows to its transaction, whatever its snapshot.** -/
theorem read_write {s : Storage C} (h : s.Sound) {tx : TxId} {v : Nat} {k : κ} {w : Write (C k)}
    (hok : (s.write tx v k w).1 = .ok ()) (u : Nat) (j : κ) (c : Cells X) :
    (s.write tx v k w).2.read tx u j c = ((⟨k, w⟩ : TableWrite C).row? j c).getD (s.read tx u j c) := by
  rw [read_eq, published_write h]
  by_cases hk : k = j
  · subst hk
    rw [draft?_write_self h, TableWrite.row?_self]
    by_cases hc : w.cells = c
    · subst hc
      cases hl : s.lands tx v k w with
      | true => simp
      | false =>
        obtain ⟨hdelete, hline⟩ := eq_delete_of_lands_eq_false hok hl
        simp [hdelete, Change.row?, draft?_of_hasLine_eq_false hline, published_of_hasLine_eq_false hline]
    · simp [hc, read_eq]
  · rw [draft?_write_of_ne s tx tx v hk, TableWrite.row?_of_ne hk, Option.getD_none, read_eq]

theorem replay_append (tx : TxId) (v : Nat) (us : List (TableWrite C)) : ∀ (ws : List (TableWrite C)) (s : Storage C),
    s.replay tx v (ws ++ us) =
      match s.replay tx v ws with
      | (.error e, s') => (.error e, s')
      | (.ok (), s') => s'.replay tx v us
  | [], _ => rfl
  | w :: rest, s => by
    rw [List.cons_append, replay, replay]
    cases s.write tx v w.kind w.write with
    | mk answer s' =>
      cases answer with
      | error e => rfl
      | ok u => exact replay_append tx v us rest s'

theorem replay_singleton (s : Storage C) (tx : TxId) (v : Nat) (w : TableWrite C) :
    s.replay tx v [w] = s.write tx v w.kind w.write := by
  rw [replay]
  cases s.write tx v w.kind w.write with
  | mk answer s' => cases answer <;> rfl

/-- **A replay that is accepted shows the last write to each key.** -/
theorem read_replay (tx : TxId) (v : Nat) : ∀ (ws : List (TableWrite C)) {s : Storage C}, s.Sound →
    (s.replay tx v ws).1 = .ok () → ∀ (u : Nat) (k : κ) (c : Cells X),
      (s.replay tx v ws).2.read tx u k c = (lastRow? ws k c).getD (s.read tx u k c)
  | [], _, _, _, _, _, _ => rfl
  | w :: rest, s, h, hok, u, k, c => by
    have hsound := sound_write h tx v w.kind w.write
    have hread : (s.write tx v w.kind w.write).1 = .ok () → _ := fun hok => read_write h hok u k c
    rw [replay] at hok ⊢
    generalize s.write tx v w.kind w.write = r at hok hsound hread
    obtain ⟨result, s'⟩ := r
    cases result with
    | error e => cases hok
    | ok e =>
      dsimp only at hok hsound hread ⊢
      rw [read_replay tx v rest hsound hok, hread rfl, lastRow?]
      cases lastRow? rest k c <;> rfl

/-- Two transactions replay writes alike if they see the same wherever one of the writes inserts. -/
theorem replay_congr {covers : κ → Cells X → Prop} {tx tx' : TxId} {v v' : Nat} : ∀ {ws : List (TableWrite C)}
    {s s' : Storage C}, s.Sound → s'.Sound → (∀ k c, covers k c → s.read tx v k c = s'.read tx' v' k c) →
      (∀ w ∈ ws, ∀ e, w.write.change = .insert e → covers w.kind w.write.cells) →
        (s.replay tx v ws).1 = (s'.replay tx' v' ws).1
  | [], _, _, _, _, _, _ => rfl
  | w :: rest, s, s', hs, hs', hread, hins => by
    have hfst : (s.write tx v w.kind w.write).1 = (s'.write tx' v' w.kind w.write).1 := by
      rw [fst_write, fst_write]
      cases hc : w.write.change with
      | insert e => rw [hread w.kind w.write.cells (hins w List.mem_cons_self e hc)]
      | save e => rfl
      | delete => rfl
    have hnext : (s.write tx v w.kind w.write).1 = .ok () → ∀ k c, covers k c →
        (s.write tx v w.kind w.write).2.read tx v k c = (s'.write tx' v' w.kind w.write).2.read tx' v' k c := by
      intro hok k c hc
      rw [read_write hs hok, read_write hs' (hfst ▸ hok), hread k c hc]
    have hsound := sound_write hs tx v w.kind w.write
    have hsound' := sound_write hs' tx' v' w.kind w.write
    rw [replay, replay]
    generalize s.write tx v w.kind w.write = r at hfst hnext hsound
    generalize s'.write tx' v' w.kind w.write = r' at hfst hnext hsound'
    obtain ⟨result, t⟩ := r
    obtain ⟨result', t'⟩ := r'
    dsimp only at hfst hnext
    subst hfst
    cases result with
    | error e => rfl
    | ok u =>
      exact replay_congr hsound hsound' (hnext rfl) fun w' hw => hins w' (List.mem_cons_of_mem _ hw)

theorem isStale_replay (tx : TxId) (v u : Nat) (k : κ) (c : Cells X) (ws : List (TableWrite C)) {s : Storage C}
    (hs : s.Sound) : (s.replay tx v ws).2.isStale u k c = s.isStale u k c :=
  (moves_replay tx v ws s).isStale_eq hs (version_replay tx v ws s) u k c

theorem contains_touched_replay (tx : TxId) (v : Nat) : ∀ {ws : List (TableWrite C)} (s : Storage C), ws ≠ [] →
    (s.replay tx v ws).1 = .ok () → (s.replay tx v ws).2.touched.contains tx = true
  | [], _, hne, _ => absurd rfl hne
  | w :: rest, s, _, hok => by
    have htouched : (s.write tx v w.kind w.write).2.touched.contains tx = true := contains_touched_touch ..
    rw [replay] at hok ⊢
    generalize s.write tx v w.kind w.write = r at hok htouched
    obtain ⟨result, s'⟩ := r
    cases result with
    | error e => cases hok
    | ok u =>
      cases rest with
      | nil => exact htouched
      | cons w' rest => exact contains_touched_replay tx v s' (List.cons_ne_nil w' rest) hok

end Storage

end EntityStore

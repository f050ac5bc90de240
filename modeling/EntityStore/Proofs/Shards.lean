import EntityStore.Proofs.Lines
/-!
# What a shard shows

What a transaction sees under a key is its own draft there, or else the row that its snapshot shows (`Shard.read_eq`).
Each operation of a shard is described by what it does to these two, to the lines that exist and to the lines that
have grown younger versions; after that nobody opens a line.  `Shard.Sound` is the invariant behind: keys ascend,
versions descend and are at most the version of the store, and a transaction has a draft under a key exactly if the
shard has noted so.
-/
namespace EntityStore

open Std

variable {X : Scalars}

namespace Line

variable {ρ : Type}

/-- Versions descend from the newest, which is at most `v`. -/
structure Ordered (v : Nat) (l : Line ρ) : Prop where
  descending : l.versions.Pairwise (fun a b => b.1 < a.1)
  bounded : ∀ p ∈ l.versions, p.1 ≤ v

theorem Ordered.mono {v w : Nat} {l : Line ρ} (h : l.Ordered v) (hvw : v ≤ w) : l.Ordered w :=
  ⟨h.descending, fun p hp => Nat.le_trans (h.bounded p hp) hvw⟩

theorem ordered_empty (v : Nat) : ({} : Line ρ).Ordered v := ⟨List.Pairwise.nil, fun _ h => by cases h⟩

theorem ordered_draft {v : Nat} {l : Line ρ} (h : l.Ordered v) (tx : TxId) (row : Option ρ) :
    (l.draft tx row).Ordered v :=
  ⟨h.descending, h.bounded⟩

theorem ordered_publish {v : Nat} {l : Line ρ} (h : l.Ordered v) (tx : TxId) :
    (l.publish tx (v + 1)).Ordered (v + 1) := by
  unfold publish
  split
  · exact h.mono (Nat.le_succ v)
  · refine ⟨List.Pairwise.cons (fun p hp => ?_) h.descending, fun p hp => ?_⟩
    · exact Nat.lt_succ_of_le (h.bounded p hp)
    · rcases List.mem_cons.1 hp with rfl | hp
      · exact Nat.le_refl _
      · exact Nat.le_succ_of_le (h.bounded p hp)

theorem get?_drafts_draft (l : Line ρ) (tx other : TxId) (row : Option ρ) :
    (l.draft tx row).drafts.get? other = if tx = other then some row else l.drafts.get? other :=
  Dict.get?_insert ..

theorem get?_drafts_publish (l : Line ρ) (tx other : TxId) (v : Nat) :
    (l.publish tx v).drafts.get? other = if tx = other then none else l.drafts.get? other := by
  unfold publish
  split
  · rename_i h
    by_cases ht : tx = other
    · rw [if_pos ht, ← ht, h]
    · rw [if_neg ht]
  · exact Dict.get?_erase ..

theorem get?_drafts_discard (l : Line ρ) (tx other : TxId) :
    (l.discard tx).drafts.get? other = if tx = other then none else l.drafts.get? other :=
  Dict.get?_erase ..

theorem published_publish (l : Line ρ) (tx : TxId) (w v : Nat) :
    (l.publish tx w).published v = if w ≤ v then (l.drafts.get? tx).getD (l.published v) else l.published v := by
  unfold publish published
  cases hd : l.drafts.get? tx with
  | none => simp
  | some row => by_cases hw : w ≤ v <;> simp [hw]

theorem hasYounger_publish (l : Line ρ) (tx : TxId) (w v : Nat) :
    (l.publish tx w).hasYounger v = if (l.drafts.get? tx).isSome then decide (v < w) else l.hasYounger v := by
  unfold publish
  cases hd : l.drafts.get? tx <;> simp [hasYounger]

theorem published_of_hasYounger_eq_false {l : Line ρ} {v w : Nat} (h : l.hasYounger v = false) (hvw : v ≤ w) :
    l.published w = l.published v := by
  unfold hasYounger at h
  unfold published
  cases hl : l.versions with
  | nil => rfl
  | cons newest rest =>
    simp only [hl, decide_eq_false_iff_not, Nat.not_lt] at h
    simp [h, Nat.le_trans h hvw]

end Line

namespace Shard

variable {E : EntityType X}

/-- The unpublished row of a transaction under a key; a deletion is `some none`. -/
def draft? (s : Shard E) (tx : TxId) (c : Cells X) : Option (Option E.Entity) :=
  (s.line? c).bind (fun line => line.drafts.get? tx)

/-- The row under a key as published by version `v`. -/
def published (s : Shard E) (v : Nat) (c : Cells X) : Option E.Entity := (s.line? c).bind (fun line => line.published v)

/-- Whether there is a line for a key, with or without versions. -/
def hasLine (s : Shard E) (c : Cells X) : Bool := (s.line? c).isSome

/-- **A transaction sees its own draft, or else what its snapshot shows.** -/
theorem read_eq (s : Shard E) (tx : TxId) (v : Nat) (c : Cells X) :
    s.read tx v c = (s.draft? tx c).getD (s.published v c) := by
  unfold read draft? published
  cases s.line? c <;> rfl

/-- Keys ascend, versions are in order, and drafts are where the shard has noted them. -/
structure Sound (v : Nat) (s : Shard E) : Prop where
  ascending : Ascending s.lines
  ordered : ∀ c line, s.line? c = some line → line.Ordered v
  drafted : ∀ tx c, (s.draft? tx c).isSome = true ↔ c ∈ s.draftKeys tx

theorem sound_empty (v : Nat) : ({} : Shard E).Sound v where
  ascending := Ascending.nil
  ordered _ _ h := by cases h
  drafted _ _ := by simp [draft?, line?, findLine, draftKeys, Dict.getD]

theorem Sound.mono {s : Shard E} {v w : Nat} (h : s.Sound v) (hvw : v ≤ w) : s.Sound w :=
  ⟨h.ascending, fun c line hl => (h.ordered c line hl).mono hvw, h.drafted⟩

/-! ## Lines after each operation -/

@[simp] theorem lines_touch (s : Shard E) (tx : TxId) (c : Cells X) : (s.touch tx c).lines = s.lines := by
  unfold touch; split <;> rfl

theorem line?_put {s : Shard E} (h : Ascending s.lines) (tx : TxId) (c j : Cells X) (row : E.Entity) :
    (s.put tx c row).line? j = if c = j then some (((s.line? c).getD {}).draft tx (some row)) else s.line? j := by
  unfold put line?
  rw [lines_touch]
  exact findLine_updateLine c j _ h

theorem line?_delete {s : Shard E} (h : Ascending s.lines) (tx : TxId) (c j : Cells X) :
    (s.delete tx c).line? j = (s.line? j).map (fun line => if c = j then line.draft tx none else line) := by
  unfold delete
  split
  · rename_i hn
    by_cases hc : c = j
    · rw [← hc, hn]; rfl
    · simp [hc]
  · rename_i line hl
    unfold line? at hl ⊢
    rw [lines_touch, findLine_updateLine c j _ h]
    by_cases hc : c = j
    · rw [← hc, hl]; simp
    · simp [hc]

theorem line?_finish (s : Shard E) (tx : TxId) (f : Line E.Entity → Line E.Entity) (c : Cells X) :
    (s.finish tx f).line? c = (s.line? c).map (fun line => if (s.draftKeys tx).contains c then f line else line) :=
  findLine_map_if ..

theorem mem_draftKeys_touch (s : Shard E) (tx other : TxId) (c j : Cells X) :
    j ∈ (s.touch tx c).draftKeys other ↔ j ∈ s.draftKeys other ∨ (tx = other ∧ c = j) := by
  unfold touch
  split
  · rename_i hc
    constructor
    · exact .inl
    · rintro (h | ⟨rfl, rfl⟩)
      · exact h
      · simpa using hc
  · unfold draftKeys Dict.getD
    rw [Dict.get?_insert]
    by_cases ht : tx = other
    · subst ht
      simp [eq_comm]
    · simp [ht]

theorem draftKeys_finish (s : Shard E) (tx other : TxId) (f : Line E.Entity → Line E.Entity) :
    (s.finish tx f).draftKeys other = if tx = other then [] else s.draftKeys other := by
  unfold finish draftKeys Dict.getD
  rw [Dict.get?_erase]
  by_cases ht : tx = other <;> simp [ht]

/-! ## Drafts and published rows after each operation -/

theorem draft?_put {v : Nat} {s : Shard E} (h : s.Sound v) (tx other : TxId) (c j : Cells X) (row : E.Entity) :
    (s.put tx c row).draft? other j = if tx = other ∧ c = j then some (some row) else s.draft? other j := by
  unfold draft?
  rw [line?_put h.ascending]
  by_cases hc : c = j
  · subst hc
    simp only [if_true, Option.bind_some, Line.get?_drafts_draft, and_true]
    cases s.line? c <;> rfl
  · simp [hc]

theorem published_put {v : Nat} {s : Shard E} (h : s.Sound v) (tx : TxId) (w : Nat) (c j : Cells X) (row : E.Entity) :
    (s.put tx c row).published w j = s.published w j := by
  unfold published
  rw [line?_put h.ascending]
  by_cases hc : c = j
  · subst hc
    simp only [if_true, Option.bind_some]
    cases s.line? c <;> rfl
  · simp [hc]

theorem isStale_put {v : Nat} {s : Shard E} (h : s.Sound v) (tx : TxId) (w : Nat) (c j : Cells X) (row : E.Entity) :
    (s.put tx c row).isStale w j = s.isStale w j := by
  unfold isStale
  rw [line?_put h.ascending]
  by_cases hc : c = j
  · subst hc
    simp only [if_true, Option.any_some]
    cases s.line? c <;> rfl
  · simp [hc]

theorem draft?_delete {v : Nat} {s : Shard E} (h : s.Sound v) (tx other : TxId) (c j : Cells X) :
    (s.delete tx c).draft? other j =
      if tx = other ∧ c = j ∧ s.hasLine c = true then some none else s.draft? other j := by
  unfold draft? hasLine
  rw [line?_delete h.ascending]
  by_cases hc : c = j
  · subst hc
    cases s.line? c with
    | none => simp
    | some line => simp [Line.get?_drafts_draft]
  · simp [hc]

theorem published_delete {v : Nat} {s : Shard E} (h : s.Sound v) (tx : TxId) (w : Nat) (c j : Cells X) :
    (s.delete tx c).published w j = s.published w j := by
  unfold published
  rw [line?_delete h.ascending]
  cases s.line? j with
  | none => rfl
  | some line =>
    by_cases hc : c = j
    · simp [hc]
      rfl
    · simp [hc]

theorem isStale_delete {v : Nat} {s : Shard E} (h : s.Sound v) (tx : TxId) (w : Nat) (c j : Cells X) :
    (s.delete tx c).isStale w j = s.isStale w j := by
  unfold isStale
  rw [line?_delete h.ascending]
  cases s.line? j with
  | none => rfl
  | some line =>
    by_cases hc : c = j
    · simp [hc]
      rfl
    · simp [hc]

theorem hasLine_put {s : Shard E} (h : Ascending s.lines) (tx : TxId) (c j : Cells X) (row : E.Entity) :
    (s.put tx c row).hasLine j = true ↔ s.hasLine j = true ∨ c = j := by
  unfold hasLine
  rw [line?_put h]
  by_cases hc : c = j <;> simp [hc]

theorem hasLine_delete {s : Shard E} (h : Ascending s.lines) (tx : TxId) (c j : Cells X) :
    (s.delete tx c).hasLine j = s.hasLine j := by
  unfold hasLine
  rw [line?_delete h, Option.isSome_map]

theorem hasLine_finish (s : Shard E) (tx : TxId) (f : Line E.Entity → Line E.Entity) (c : Cells X) :
    (s.finish tx f).hasLine c = s.hasLine c := by
  unfold hasLine
  rw [line?_finish, Option.isSome_map]

theorem Sound.line?_finish_of_draft?_eq_none {v : Nat} {s : Shard E} (h : s.Sound v) {tx : TxId} {c : Cells X}
    (f : Line E.Entity → Line E.Entity) (hd : s.draft? tx c = none) : (s.finish tx f).line? c = s.line? c := by
  have hc : c ∉ s.draftKeys tx := by
    rw [← h.drafted, hd]
    simp
  rw [line?_finish]
  simp [hc]

theorem Sound.line?_finish_of_draft?_eq_some {v : Nat} {s : Shard E} (h : s.Sound v) {tx : TxId} {c : Cells X}
    (f : Line E.Entity → Line E.Entity) {row : Option E.Entity} (hd : s.draft? tx c = some row) :
    (s.finish tx f).line? c = (s.line? c).map f := by
  have hc : c ∈ s.draftKeys tx := by
    rw [← h.drafted, hd]
    rfl
  rw [line?_finish]
  simp [hc]

theorem draft?_finish {v : Nat} {s : Shard E} (h : s.Sound v) (tx other : TxId) (f : Line E.Entity → Line E.Entity)
    (hf : ∀ line, (f line).drafts.get? other = if tx = other then none else line.drafts.get? other) (c : Cells X) :
    (s.finish tx f).draft? other c = if tx = other then none else s.draft? other c := by
  cases hd : s.draft? tx c with
  | none =>
    unfold draft? at *
    rw [h.line?_finish_of_draft?_eq_none _ hd]
    by_cases ht : tx = other
    · rw [if_pos ht, ← ht, hd]
    · rw [if_neg ht]
  | some row =>
    unfold draft?
    rw [h.line?_finish_of_draft?_eq_some _ hd]
    cases s.line? c with
    | none => simp
    | some line => exact hf line

theorem draft?_publish {v : Nat} {s : Shard E} (h : s.Sound v) (tx other : TxId) (w : Nat) (c : Cells X) :
    (s.publish tx w).draft? other c = if tx = other then none else s.draft? other c :=
  draft?_finish h tx other _ (fun line => line.get?_drafts_publish tx other w) c

theorem draft?_discard {v : Nat} {s : Shard E} (h : s.Sound v) (tx other : TxId) (c : Cells X) :
    (s.discard tx).draft? other c = if tx = other then none else s.draft? other c :=
  draft?_finish h tx other _ (fun line => line.get?_drafts_discard tx other) c

/-- **A publication shows the drafts of its transaction from its version on, and nothing else.** -/
theorem published_publish {v : Nat} {s : Shard E} (h : s.Sound v) (tx : TxId) (w u : Nat) (c : Cells X) :
    (s.publish tx w).published u c = if w ≤ u then s.read tx u c else s.published u c := by
  rw [read_eq]
  cases hd : s.draft? tx c with
  | none =>
    unfold published publish
    rw [h.line?_finish_of_draft?_eq_none _ hd]
    simp
  | some row =>
    unfold published publish
    rw [h.line?_finish_of_draft?_eq_some _ hd]
    unfold draft? at hd
    cases hl : s.line? c with
    | none => rw [hl] at hd; cases hd
    | some line =>
      rw [hl] at hd
      simp only [Option.map_some, Option.bind_some] at hd ⊢
      rw [Line.published_publish, hd]

theorem isStale_publish {v : Nat} {s : Shard E} (h : s.Sound v) (tx : TxId) (w u : Nat) (c : Cells X) :
    (s.publish tx w).isStale u c = if (s.draft? tx c).isSome then decide (u < w) else s.isStale u c := by
  cases hd : s.draft? tx c with
  | none =>
    unfold isStale publish
    rw [h.line?_finish_of_draft?_eq_none _ hd]
    simp
  | some row =>
    unfold isStale publish
    rw [h.line?_finish_of_draft?_eq_some _ hd]
    unfold draft? at hd
    cases hl : s.line? c with
    | none => rw [hl] at hd; cases hd
    | some line =>
      rw [hl] at hd
      simp only [Option.bind_some] at hd
      simp [Line.hasYounger_publish, hd]

theorem published_discard (s : Shard E) (tx : TxId) (u : Nat) (c : Cells X) :
    (s.discard tx).published u c = s.published u c := by
  unfold published discard
  rw [line?_finish]
  cases s.line? c with
  | none => rfl
  | some line => by_cases hc : (s.draftKeys tx).contains c <;> simp only [Option.map_some, hc] <;> rfl

theorem isStale_discard (s : Shard E) (tx : TxId) (u : Nat) (c : Cells X) :
    (s.discard tx).isStale u c = s.isStale u c := by
  unfold isStale discard
  rw [line?_finish]
  cases s.line? c with
  | none => rfl
  | some line => by_cases hc : (s.draftKeys tx).contains c <;> simp only [Option.map_some, hc] <;> rfl

/-! ## The invariant is kept -/

theorem sound_put {v : Nat} {s : Shard E} (h : s.Sound v) (tx : TxId) (c : Cells X) (row : E.Entity) :
    (s.put tx c row).Sound v where
  ascending := by
    unfold put
    rw [lines_touch]
    exact ascending_updateLine c _ h.ascending
  ordered j line hl := by
    rw [line?_put h.ascending] at hl
    by_cases hc : c = j
    · rw [if_pos hc] at hl
      cases hl
      refine Line.ordered_draft ?_ tx (some row)
      cases hs : s.line? c with
      | none => exact Line.ordered_empty v
      | some old => exact h.ordered c old hs
    · rw [if_neg hc] at hl
      exact h.ordered j line hl
  drafted other j := by
    rw [draft?_put h]
    unfold put
    rw [mem_draftKeys_touch]
    by_cases hc : tx = other ∧ c = j
    · simp [hc]
    · simp only [hc, if_false, or_false]
      exact h.drafted other j

theorem sound_delete {v : Nat} {s : Shard E} (h : s.Sound v) (tx : TxId) (c : Cells X) : (s.delete tx c).Sound v where
  ascending := by
    unfold delete
    split
    · exact h.ascending
    · rw [lines_touch]
      exact ascending_updateLine c _ h.ascending
  ordered j line hl := by
    rw [line?_delete h.ascending] at hl
    obtain ⟨old, ho, rfl⟩ := Option.map_eq_some_iff.1 hl
    have := h.ordered j old ho
    by_cases hc : c = j
    · rw [if_pos hc]
      exact Line.ordered_draft this tx none
    · rw [if_neg hc]
      exact this
  drafted other j := by
    rw [draft?_delete h]
    unfold delete hasLine
    cases hl : s.line? c with
    | none =>
      simp only [Option.isSome_none, Bool.false_eq_true, and_false, if_false]
      exact h.drafted other j
    | some line =>
      rw [mem_draftKeys_touch]
      by_cases hc : tx = other ∧ c = j
      · simp [hc]
      · simp only [Option.isSome_some, and_true, hc, if_false, or_false]
        exact h.drafted other j

theorem ascending_finish {s : Shard E} (h : Ascending s.lines) (tx : TxId) (f : Line E.Entity → Line E.Entity) :
    Ascending (s.finish tx f).lines := by
  refine Ascending.map h _ fun p => ?_
  split <;> rfl

theorem drafted_finish {v : Nat} {s : Shard E} (h : s.Sound v) (tx : TxId) (f : Line E.Entity → Line E.Entity)
    (hf : ∀ line other, (f line).drafts.get? other = if tx = other then none else line.drafts.get? other)
    (other : TxId) (c : Cells X) :
    ((s.finish tx f).draft? other c).isSome = true ↔ c ∈ (s.finish tx f).draftKeys other := by
  rw [draft?_finish h tx other f (fun line => hf line other), draftKeys_finish]
  by_cases ht : tx = other
  · simp [ht]
  · rw [if_neg ht, if_neg ht]
    exact h.drafted other c

theorem sound_publish {v : Nat} {s : Shard E} (h : s.Sound v) (tx : TxId) : (s.publish tx (v + 1)).Sound (v + 1) where
  ascending := ascending_finish h.ascending tx _
  ordered c line hl := by
    unfold publish at hl
    rw [line?_finish] at hl
    obtain ⟨old, ho, rfl⟩ := Option.map_eq_some_iff.1 hl
    split
    · exact Line.ordered_publish (h.ordered c old ho) tx
    · exact (h.ordered c old ho).mono (Nat.le_succ v)
  drafted := drafted_finish h tx _ (fun line other => line.get?_drafts_publish tx other (v + 1))

theorem sound_discard {v : Nat} {s : Shard E} (h : s.Sound v) (tx : TxId) : (s.discard tx).Sound v where
  ascending := ascending_finish h.ascending tx _
  ordered c line hl := by
    unfold discard at hl
    rw [line?_finish] at hl
    obtain ⟨old, ho, rfl⟩ := Option.map_eq_some_iff.1 hl
    have := h.ordered c old ho
    split
    · exact ⟨this.descending, this.bounded⟩
    · exact this
  drafted := drafted_finish h tx _ (fun line other => line.get?_drafts_discard tx other)

/-! ## The settled shard -/

theorem line?_settled (s : Shard E) (c : Cells X) : s.settled.line? c = (s.line? c).map Line.settled := findLine_map ..

theorem draft?_settled (s : Shard E) (tx : TxId) (c : Cells X) : s.settled.draft? tx c = none := by
  unfold draft?
  rw [line?_settled]
  cases s.line? c <;> rfl

theorem published_settled (s : Shard E) (v : Nat) (c : Cells X) : s.settled.published v c = s.published v c := by
  unfold published
  rw [line?_settled]
  cases s.line? c <;> rfl

theorem isStale_settled (s : Shard E) (v : Nat) (c : Cells X) : s.settled.isStale v c = s.isStale v c := by
  unfold isStale
  rw [line?_settled]
  cases s.line? c <;> rfl

theorem hasLine_settled (s : Shard E) (c : Cells X) : s.settled.hasLine c = s.hasLine c := by
  unfold hasLine
  rw [line?_settled, Option.isSome_map]

theorem sound_settled {v : Nat} {s : Shard E} (h : s.Sound v) : s.settled.Sound v where
  ascending := Ascending.map h.ascending _ (fun _ => rfl)
  ordered c line hl := by
    rw [line?_settled] at hl
    obtain ⟨old, ho, rfl⟩ := Option.map_eq_some_iff.1 hl
    exact ⟨(h.ordered c old ho).descending, (h.ordered c old ho).bounded⟩
  drafted tx c := by
    rw [draft?_settled]
    simp [settled, draftKeys, Dict.getD]

/-! ## Rows -/

theorem ascending_rows {v : Nat} {s : Shard E} (h : s.Sound v) (tx : TxId) (u : Nat) : Ascending (s.rows tx u) := by
  refine Ascending.filterMap h.ascending _ fun p q hq => ?_
  obtain ⟨row, -, rfl⟩ := Option.map_eq_some_iff.1 hq
  rfl

/-- **The rows of a shard are what it shows under its keys.** -/
theorem mem_rows {v : Nat} {s : Shard E} (h : s.Sound v) (tx : TxId) (u : Nat) (c : Cells X) (row : E.Entity) :
    (c, row) ∈ s.rows tx u ↔ s.read tx u c = some row := by
  unfold rows read
  rw [List.mem_filterMap]
  constructor
  · rintro ⟨⟨key, line⟩, hm, hr⟩
    obtain ⟨row', hr', he⟩ := Option.map_eq_some_iff.1 hr
    cases he
    unfold line?
    rw [(mem_iff_findLine h.ascending).1 hm]
    exact hr'
  · intro hr
    obtain ⟨line, hl, hr⟩ := Option.bind_eq_some_iff.1 hr
    exact ⟨(c, line), mem_of_findLine hl, by rw [hr]; rfl⟩

end Shard

end EntityStore

import EntityStore.Proofs.KeyOrder
import EntityStore.Proofs.FlatForms
import EntityStore.Samples.Scalars
/-!
# An interval is a contiguous run

An interval is kept field by field and judges a row field by field.  It is nonetheless one stretch of the canonical
order: `Interval.contiguous` says which ends are accepted, by the tags of the fields (`Tag`), and that a row lies in the
interval exactly if it is, in lexicographic order, between what the two ends fill in.

The two recursions meet in `Bound.admits_iff_between`: under a pinned field the rows that differ in it are out on one of
the two sides, below a bounded one nothing more is asked.
-/
namespace EntityStore

open Std

variable {X : Scalars}

/-- How the two ends of an interval leave one field. -/
inductive Tag where
  /-- Both ends fill it, alike. -/
  | pinned
  /-- At least one end fills it, and they are not alike. -/
  | bounded
  /-- Neither end fills it. -/
  | free
deriving DecidableEq

namespace Tag

def ofEnds (lower upper : Option (Value X)) : Tag :=
  if lower = none ∧ upper = none then .free else if lower = upper then .pinned else .bounded

/-- The tags of all fields, in the order of the schema. -/
def ofRows (lower upper : Cells X) : List Tag := List.zipWith ofEnds lower upper

/-- Pinned fields, at most one bounded field, free fields. -/
def InOrder (tags : List Tag) : Prop :=
  ∃ pinned bounded free, bounded ≤ 1 ∧
    tags = List.replicate pinned .pinned ++ List.replicate bounded .bounded ++ List.replicate free .free

theorem inOrder_nil : InOrder [] := ⟨0, 0, 0, Nat.zero_le _, rfl⟩

theorem inOrder_pinned {tags : List Tag} : InOrder (.pinned :: tags) ↔ InOrder tags := by
  constructor
  · rintro ⟨pinned, bounded, free, hle, h⟩
    cases pinned with
    | zero =>
      have : Tag.pinned ∈ List.replicate bounded Tag.bounded ++ List.replicate free Tag.free := by
        rw [List.replicate_zero, List.nil_append] at h
        exact h ▸ List.mem_cons_self
      simp at this
    | succ n => exact ⟨n, bounded, free, hle, (List.cons.inj h).2⟩
  · rintro ⟨pinned, bounded, free, hle, rfl⟩
    exact ⟨pinned + 1, bounded, free, hle, rfl⟩

theorem inOrder_free {tags : List Tag} : InOrder (.free :: tags) ↔ ∀ t ∈ tags, t = .free := by
  constructor
  · rintro ⟨pinned, bounded, free, hle, h⟩
    cases pinned with
    | succ n => cases (List.cons.inj h).1
    | zero =>
      cases bounded with
      | succ n => cases (List.cons.inj h).1
      | zero =>
        intro t ht
        have : t ∈ List.replicate free Tag.free := by
          simp only [List.replicate_zero, List.nil_append] at h
          exact h ▸ List.mem_cons_of_mem _ ht
        exact List.eq_of_mem_replicate this
  · intro h
    exact ⟨0, 0, tags.length + 1, Nat.zero_le _, congrArg _ (List.eq_replicate_of_mem h)⟩

theorem inOrder_bounded {tags : List Tag} : InOrder (.bounded :: tags) ↔ ∀ t ∈ tags, t = .free := by
  constructor
  · rintro ⟨pinned, bounded, free, hle, h⟩
    cases pinned with
    | succ n => cases (List.cons.inj h).1
    | zero =>
      cases bounded with
      | zero =>
        cases free with
        | zero => cases h
        | succ n => cases (List.cons.inj h).1
      | succ n =>
        obtain rfl : n = 0 := by omega
        have htags : tags = List.replicate free .free := (List.cons.inj h).2
        exact fun t ht => List.eq_of_mem_replicate (htags ▸ ht)
  · intro h
    exact ⟨0, 1, tags.length, Nat.le_refl _, congrArg _ (List.eq_replicate_of_mem h)⟩

end Tag

namespace Value

theorem compare_self (v : Value X) : v.compare v = .eq := Std.compare_self (α := Value X)

theorem then_ne_gt_iff {v w : Value X} {o : Ordering} :
    (Cells.compareCell (some v) (some w)).then o ≠ .gt ↔ v.compare w = .lt ∨ v = w ∧ o ≠ .gt := by
  show (v.compare w).then o ≠ .gt ↔ _
  by_cases he : v = w
  · subst he
    simp [compare_self]
  · have hne : v.compare w ≠ .eq := fun h => he (eq_of_compare_eq h)
    cases hvw : v.compare w <;> simp_all

theorem compare_ne_gt_iff {v w : Value X} : v.compare w ≠ .gt ↔ v.compare w = .lt ∨ v = w := by
  have := then_ne_gt_iff (v := v) (w := w) (o := .eq)
  simpa [Cells.compareCell] using this

end Value

namespace Cells

/-- The leading cells that are filled. -/
def filled (c : Cells X) : Cells X := c.takeWhile Option.isSome

/-- Cut to the cells that `lower` leads with, the row is not below them. -/
def From (lower c : Cells X) : Prop := compare (filled lower) (c.take (filled lower).length) ≠ .gt

/-- Cut to the cells that `upper` leads with, the row is not above them. -/
def UpTo (upper c : Cells X) : Prop := compare (c.take (filled upper).length) (filled upper) ≠ .gt

instance (lower c : Cells X) : Decidable (From lower c) := inferInstanceAs (Decidable (_ ≠ _))

instance (upper c : Cells X) : Decidable (UpTo upper c) := inferInstanceAs (Decidable (_ ≠ _))

@[simp] theorem filled_some (v : Value X) (c : Cells X) : filled (some v :: c) = some v :: filled c := rfl

theorem isPartial_iff {c : Cells X} : isPartial c = true ↔ none ∈ c := by
  simp [isPartial]

theorem compare_ne_gt_iff {a b : Cells X} : compare a b ≠ .gt ↔ (Ord.compare a b).isLE := by
  rw [compare_eq, Ordering.isLE_iff_ne_gt]

theorem compare_cons {x y : Option (Value X)} {a b : Cells X} :
    compare (x :: a) (y :: b) = (compareCell x y).then (compare a b) := by
  rw [compare_eq, compare_eq, compareCell_eq]
  exact List.compare_cons_cons

theorem compare_self (a : Cells X) : compare a a = .eq := by
  rw [compare_eq]
  exact Std.compare_self

theorem take_le_take : ∀ (n : Nat) {a b : Cells X}, compare a b ≠ .gt → compare (a.take n) (b.take n) ≠ .gt
  | 0, _, _, _ => by simp [compare_self]
  | n + 1, [], b, _ => by
    cases b with
    | nil => simp [compare_self]
    | cons y b => exact fun h => by cases h
  | n + 1, x :: a, [], h => absurd rfl h
  | n + 1, x :: a, y :: b, h => by
    rw [compare_cons] at h
    rw [List.take_succ_cons, List.take_succ_cons, compare_cons]
    cases hxy : compareCell x y with
    | lt => exact fun h => by cases h
    | gt =>
      rw [hxy] at h
      exact absurd rfl h
    | eq =>
      rw [hxy] at h
      exact take_le_take n h

theorem le_trans {a b c : Cells X} (hab : compare a b ≠ .gt) (hbc : compare b c ≠ .gt) : compare a c ≠ .gt :=
  compare_ne_gt_iff.2 (TransOrd.isLE_trans (compare_ne_gt_iff.1 hab) (compare_ne_gt_iff.1 hbc))

theorem from_of_filled_nil {lower c : Cells X} (h : filled lower = []) : From lower c := by
  simp [From, h, compare_self]

theorem upTo_of_filled_nil {upper c : Cells X} (h : filled upper = []) : UpTo upper c := by
  simp [UpTo, h, compare_self]

theorem from_cons {v x : Value X} {lower c : Cells X} :
    From (some v :: lower) (some x :: c) ↔ v.compare x = .lt ∨ v = x ∧ From lower c := by
  unfold From
  rw [filled_some, List.length_cons, List.take_succ_cons, compare_cons, Value.then_ne_gt_iff]

theorem upTo_cons {v x : Value X} {upper c : Cells X} :
    UpTo (some v :: upper) (some x :: c) ↔ x.compare v = .lt ∨ x = v ∧ UpTo upper c := by
  unfold UpTo
  rw [filled_some, List.length_cons, List.take_succ_cons, compare_cons, Value.then_ne_gt_iff]

theorem From.mono {lower c d : Cells X} (h : From lower c) (hcd : compare c d ≠ .gt) : From lower d :=
  le_trans h (take_le_take _ hcd)

theorem UpTo.mono {upper c d : Cells X} (h : UpTo upper d) (hcd : compare c d ≠ .gt) : UpTo upper c :=
  le_trans (take_le_take _ hcd) h

end Cells

namespace Bound

def tag : Bound X → Tag
  | .equal _ => .pinned
  | .within _ _ => .bounded
  | .free => .free

theorem exists_ofEnds_iff {a b : Option (Value X)} :
    (∃ bound, ofEnds a b = .ok bound) ↔ ∀ v w, a = some v → b = some w → v.compare w ≠ .gt := by
  cases a with
  | none => cases b <;> simp [ofEnds]
  | some v =>
    cases b with
    | none => simp [ofEnds]
    | some w => cases hvw : v.compare w <;> simp [ofEnds, hvw]

theorem ofEnds_cases {a b : Option (Value X)} {bound : Bound X} (h : ofEnds a b = .ok bound) :
    (∃ v, a = some v ∧ b = some v ∧ bound = .equal v) ∨ (a ≠ b ∧ bound = .within a b) ∨
      (a = none ∧ b = none ∧ bound = .free) := by
  cases a with
  | none =>
    cases b with
    | none =>
      cases h
      exact .inr (.inr ⟨rfl, rfl, rfl⟩)
    | some w =>
      cases h
      exact .inr (.inl ⟨nofun, rfl⟩)
  | some v =>
    cases b with
    | none =>
      cases h
      exact .inr (.inl ⟨nofun, rfl⟩)
    | some w =>
      cases hvw : v.compare w with
      | eq =>
        simp only [ofEnds, hvw] at h
        cases h
        exact .inl ⟨v, rfl, congrArg some (Value.eq_of_compare_eq hvw).symm, rfl⟩
      | gt =>
        simp only [ofEnds, hvw] at h
        cases h
      | lt =>
        simp only [ofEnds, hvw] at h
        cases h
        refine .inr (.inl ⟨fun he => ?_, rfl⟩)
        cases he
        rw [Value.compare_self] at hvw
        cases hvw

theorem tag_of_ofEnds {a b : Option (Value X)} {bound : Bound X} (h : ofEnds a b = .ok bound) :
    bound.tag = Tag.ofEnds a b := by
  obtain ⟨v, rfl, rfl, rfl⟩ | ⟨hne, rfl⟩ | ⟨rfl, rfl, rfl⟩ := ofEnds_cases h
  · simp [tag, Tag.ofEnds]
  · have : ¬(a = none ∧ b = none) := fun ⟨ha, hb⟩ => hne (ha.trans hb.symm)
    simp [tag, Tag.ofEnds, this, hne]
  · rfl

/-- No field has both ends filled, the lower above the upper. -/
def Uncrossed (lower upper : Cells X) : Prop := ∀ v w, (some v, some w) ∈ lower.zip upper → v.compare w ≠ .gt

theorem uncrossed_cons {a b : Option (Value X)} {lower upper : Cells X} : Uncrossed (a :: lower) (b :: upper) ↔
    (∀ v w, a = some v → b = some w → v.compare w ≠ .gt) ∧ Uncrossed lower upper := by
  simp only [Uncrossed, List.zip_cons_cons, List.mem_cons, Prod.mk.injEq]
  constructor
  · exact fun h => ⟨fun v w hv hw => h v w (.inl ⟨hv.symm, hw.symm⟩), fun v w hm => h v w (.inr hm)⟩
  · rintro ⟨hhere, hrest⟩ v w (⟨hv, hw⟩ | hm)
    · exact hhere v w hv.symm hw.symm
    · exact hrest v w hm

theorem ofRows_cons_eq_ok_iff {a b : Option (Value X)} {lower upper : Cells X} {bounds : List (Bound X)} :
    ofRows (a :: lower) (b :: upper) = .ok bounds ↔
      ∃ bound rest, ofEnds a b = .ok bound ∧ ofRows lower upper = .ok rest ∧ bounds = bound :: rest := by
  rw [ofRows]
  cases hbound : ofEnds a b with
  | error fault => simp
  | ok bound => cases hrest : ofRows lower upper <;> simp [eq_comm]

theorem exists_ofRows_iff : ∀ {lower upper : Cells X}, (∃ bounds, ofRows lower upper = .ok bounds) ↔ Uncrossed lower upper
  | [], _ => by simp [ofRows, Uncrossed]
  | _ :: _, [] => by simp [ofRows, Uncrossed]
  | a :: lower, b :: upper => by
    rw [uncrossed_cons, ← exists_ofEnds_iff, ← exists_ofRows_iff]
    simp only [ofRows_cons_eq_ok_iff]
    constructor
    · rintro ⟨_, bound, rest, hbound, hrest, -⟩
      exact ⟨⟨bound, hbound⟩, ⟨rest, hrest⟩⟩
    · rintro ⟨⟨bound, hbound⟩, ⟨rest, hrest⟩⟩
      exact ⟨_, bound, rest, hbound, hrest, rfl⟩

theorem tags_of_ofRows : ∀ {lower upper : Cells X} {bounds : List (Bound X)}, ofRows lower upper = .ok bounds →
    bounds.map tag = Tag.ofRows lower upper
  | [], _, _, h => by
    cases h
    rfl
  | _ :: _, [], _, h => by
    cases h
    rfl
  | a :: lower, b :: upper, bounds, h => by
    obtain ⟨bound, rest, hbound, hrest, rfl⟩ := ofRows_cons_eq_ok_iff.1 h
    rw [List.map_cons, tag_of_ofEnds hbound, tags_of_ofRows hrest, Tag.ofRows, Tag.ofRows, List.zipWith_cons_cons]

theorem all_isFree_iff {bounds : List (Bound X)} : bounds.all isFree = true ↔ ∀ t ∈ bounds.map tag, t = .free := by
  rw [List.all_eq_true, List.forall_mem_map]
  refine forall₂_congr fun bound _ => ?_
  cases bound <;> simp [isFree, tag]

/-- **What is accepted, read off the tags.** -/
theorem isContiguous_iff : ∀ {bounds : List (Bound X)}, isContiguous bounds = true ↔ Tag.InOrder (bounds.map tag)
  | [] => by simpa [isContiguous] using Tag.inOrder_nil
  | .equal v :: rest => by
    rw [List.map_cons, tag, Tag.inOrder_pinned, ← isContiguous_iff]
    rfl
  | .within lower upper :: rest => by
    rw [List.map_cons, tag, Tag.inOrder_bounded, ← all_isFree_iff]
    rfl
  | .free :: rest => by
    rw [List.map_cons, tag, Tag.inOrder_free, ← all_isFree_iff]
    rfl

theorem admits_of_free : ∀ {bounds : List (Bound X)} {c : Cells X}, bounds.all isFree = true →
    (bounds.zip c).all (fun p => p.2.all p.1.admits) = true := by
  intro bounds c h
  rw [List.all_eq_true] at h ⊢
  rintro ⟨bound, cell⟩ hp
  have hfree := h bound (List.of_mem_zip hp).1
  cases bound with
  | free => cases cell <;> rfl
  | equal v => cases hfree
  | within lower upper => cases hfree

theorem filled_of_free {lower upper : Cells X} {bounds : List (Bound X)} (h : ofRows lower upper = .ok bounds)
    (hlength : lower.length = upper.length) (hfree : bounds.all isFree = true) :
    Cells.filled lower = [] ∧ Cells.filled upper = [] := by
  match lower, upper with
  | [], [] => exact ⟨rfl, rfl⟩
  | a :: lower, b :: upper =>
    obtain ⟨bound, rest, hbound, -, rfl⟩ := ofRows_cons_eq_ok_iff.1 h
    have hhere : isFree bound = true := List.all_eq_true.1 hfree bound List.mem_cons_self
    obtain ⟨v, -, -, rfl⟩ | ⟨-, rfl⟩ | ⟨rfl, rfl, -⟩ := ofEnds_cases hbound
    · cases hhere
    · cases hhere
    · exact ⟨rfl, rfl⟩

/-- **Field by field is lexicographic**: of ends that are accepted, a row satisfies every bound exactly if it lies
between what the ends lead with. -/
theorem admits_iff_between : ∀ {lower upper c : Cells X} {bounds : List (Bound X)}, ofRows lower upper = .ok bounds →
    lower.length = upper.length → c.length = lower.length → none ∉ c → isContiguous bounds = true →
    ((bounds.zip c).all (fun p => p.2.all p.1.admits) = true ↔ Cells.From lower c ∧ Cells.UpTo upper c)
  | [], [], c, _, h, _, _, _, _ => by
    cases h
    simp [Cells.From, Cells.UpTo, Cells.filled, Cells.compare_self]
  | a :: lower, b :: upper, cell :: c, bounds, h, hlength, hwidth, hnone, hcontiguous => by
    obtain ⟨bound, rest, hbound, hrest, rfl⟩ := ofRows_cons_eq_ok_iff.1 h
    obtain ⟨x, rfl⟩ : ∃ x, cell = some x := Option.ne_none_iff_exists'.1 fun hc => hnone (hc ▸ List.mem_cons_self)
    have hlength' : lower.length = upper.length := Nat.succ.inj hlength
    rw [List.zip_cons_cons, List.all_cons, Bool.and_eq_true]
    obtain ⟨v, rfl, rfl, rfl⟩ | ⟨-, rfl⟩ | ⟨rfl, rfl, rfl⟩ := ofEnds_cases hbound
    · -- a pinned field: a row that differs there is out on one side
      have ih := admits_iff_between hrest hlength' (Nat.succ.inj hwidth) (fun hc => hnone (List.mem_cons_of_mem _ hc))
        hcontiguous
      have hhere : (some x).all (Bound.equal v).admits = true ↔ x = v := by simp [admits]
      rw [ih, hhere, Cells.from_cons, Cells.upTo_cons]
      constructor
      · rintro ⟨rfl, hfrom, hupto⟩
        exact ⟨.inr ⟨rfl, hfrom⟩, .inr ⟨rfl, hupto⟩⟩
      · rintro ⟨hvx | ⟨rfl, hfrom⟩, hxv | ⟨he, hupto⟩⟩
        · rw [Value.compare_swap, hvx] at hxv
          cases hxv
        · rw [he, Value.compare_self] at hvx
          cases hvx
        · rw [Value.compare_self] at hxv
          cases hxv
        · exact ⟨rfl, hfrom, hupto⟩
    · -- a bounded field: the fields after it are free
      have hfree : rest.all isFree = true := hcontiguous
      obtain ⟨hlower, hupper⟩ := filled_of_free hrest hlength' hfree
      have hfrom : a.all (fun v => v.compare x ≠ .gt) = true ↔ Cells.From (a :: lower) (some x :: c) := by
        cases a with
        | none => exact iff_of_true rfl (Cells.from_of_filled_nil rfl)
        | some v => simp [Cells.from_cons, Cells.from_of_filled_nil hlower, Value.compare_ne_gt_iff]
      have hupto : b.all (fun v => x.compare v ≠ .gt) = true ↔ Cells.UpTo (b :: upper) (some x :: c) := by
        cases b with
        | none => exact iff_of_true rfl (Cells.upTo_of_filled_nil rfl)
        | some v => simp [Cells.upTo_cons, Cells.upTo_of_filled_nil hupper, Value.compare_ne_gt_iff]
      rw [← hfrom, ← hupto]
      simp [admits, admits_of_free hfree]
    · have hfree : rest.all isFree = true := hcontiguous
      exact iff_of_true ⟨rfl, admits_of_free hfree⟩
        ⟨Cells.from_of_filled_nil rfl, Cells.upTo_of_filled_nil rfl⟩

end Bound

namespace Interval

theorem ofBounds_eq_ok_iff {schema : Schema} {lower upper : Cells X} {r : Interval X} :
    ofBounds schema lower upper = .ok r ↔ lower.length = schema.width ∧ upper.length = schema.width ∧
      ∃ bounds, Bound.ofRows lower upper = .ok bounds ∧ Bound.isContiguous bounds = true ∧ r = { schema, bounds } := by
  unfold ofBounds
  by_cases hwidth : lower.length ≠ schema.width ∨ upper.length ≠ schema.width
  · rw [if_pos hwidth]
    exact iff_of_false nofun fun h => hwidth.elim (· h.1) (· h.2.1)
  · rw [if_neg hwidth]
    obtain ⟨hlower, hupper⟩ := not_or.1 hwidth
    cases hrows : Bound.ofRows lower upper with
    | error fault => simp
    | ok bounds =>
      cases hcontiguous : Bound.isContiguous bounds with
      | false => simp [hcontiguous]
      | true => simp [Decidable.not_not.1 hlower, Decidable.not_not.1 hupper, hcontiguous, @eq_comm _ _ r]

theorem containsCells_of_complete {r : Interval X} {c : Cells X} (hwidth : c.length = r.schema.width) (hnone : none ∉ c) :
    r.containsCells c = .ok ((r.bounds.zip c).all fun p => p.2.all p.1.admits) := by
  unfold containsCells
  rw [if_neg fun h => h.elim (· hwidth) (hnone ∘ Cells.isPartial_iff.1)]

/-- An interval cannot judge rows of another width, nor rows with an empty cell, and no others. -/
theorem exists_containsCells_error_iff {r : Interval X} {c : Cells X} :
    (∃ e, r.containsCells c = .error e) ↔ c.length ≠ r.schema.width ∨ none ∈ c := by
  rw [← Cells.isPartial_iff]
  unfold containsCells
  by_cases h : c.length ≠ r.schema.width ∨ Cells.isPartial c = true
  · rw [if_pos h]
    exact iff_of_true ⟨_, rfl⟩ h
  · rw [if_neg h]
    exact iff_of_false nofun h

theorem containsCells_iff {schema : Schema} {lower upper : Cells X} {r : Interval X}
    (h : ofBounds schema lower upper = .ok r) {c : Cells X} (hwidth : c.length = schema.width) (hnone : none ∉ c) :
    r.containsCells c = .ok true ↔ Cells.From lower c ∧ Cells.UpTo upper c := by
  obtain ⟨hlower, hupper, bounds, hrows, hcontiguous, rfl⟩ := ofBounds_eq_ok_iff.1 h
  rw [containsCells_of_complete hwidth hnone, Except.ok.injEq]
  exact Bound.admits_iff_between hrows (hlower.trans hupper.symm) (hwidth.trans hlower.symm) hnone hcontiguous

theorem complete_of_containsCells {r : Interval X} {c : Cells X} {b : Bool} (h : r.containsCells c = .ok b) :
    c.length = r.schema.width ∧ none ∉ c := by
  have hjudged : ¬(c.length ≠ r.schema.width ∨ none ∈ c) := by
    rintro hc
    obtain ⟨e, he⟩ := exists_containsCells_error_iff.2 hc
    rw [he] at h
    cases h
  obtain ⟨hwidth, hnone⟩ := not_or.1 hjudged
  exact ⟨Decidable.not_not.1 hwidth, hnone⟩

theorem schema_of_ofBounds {schema : Schema} {lower upper : Cells X} {r : Interval X}
    (h : ofBounds schema lower upper = .ok r) : r.schema = schema := by
  obtain ⟨-, -, bounds, -, -, rfl⟩ := ofBounds_eq_ok_iff.1 h
  rfl

theorem containsCells_of_between {schema : Schema} {lower upper : Cells X} {r : Interval X}
    (h : ofBounds schema lower upper = .ok r) {c₁ c₂ c₃ : Cells X} (hwidth : c₂.length = schema.width)
    (hnone : none ∉ c₂) (h₁₂ : Cells.compare c₁ c₂ ≠ .gt) (h₂₃ : Cells.compare c₂ c₃ ≠ .gt)
    (h₁ : r.containsCells c₁ = .ok true) (h₃ : r.containsCells c₃ = .ok true) : r.containsCells c₂ = .ok true := by
  have hbetween {c : Cells X} (hc : r.containsCells c = .ok true) : Cells.From lower c ∧ Cells.UpTo upper c := by
    obtain ⟨hwidth, hnone⟩ := complete_of_containsCells hc
    exact (containsCells_iff h (hwidth.trans (congrArg _ (schema_of_ofBounds h))) hnone).1 hc
  exact (containsCells_iff h hwidth hnone).2 ⟨(hbetween h₁).1.mono h₁₂, (hbetween h₃).2.mono h₂₃⟩

/-- **An interval is exactly a contiguous run.**  Two ends are accepted if and only if both have the width of the
schema, no field has them crossed, and the tags of the fields read `pinned* bounded? free*`.  An accepted interval
refuses to judge the rows of another width and those with an empty cell; of the others it contains those that lie in
canonical order between what its ends lead with, and so every row between two that it contains. -/
theorem contiguous (schema : Schema) (lower upper : Cells X) :
    ((∃ r, ofBounds schema lower upper = .ok r) ↔
      lower.length = schema.width ∧ upper.length = schema.width ∧ Bound.Uncrossed lower upper ∧
        Tag.InOrder (Tag.ofRows lower upper)) ∧
    ∀ r, ofBounds schema lower upper = .ok r →
      (∀ c, (∃ e, r.containsCells c = .error e) ↔ c.length ≠ schema.width ∨ none ∈ c) ∧
      (∀ c, c.length = schema.width → none ∉ c →
        (r.containsCells c = .ok true ↔ Cells.From lower c ∧ Cells.UpTo upper c)) ∧
      (∀ c₁ c₂ c₃, c₂.length = schema.width → none ∉ c₂ →
        Cells.compare c₁ c₂ ≠ .gt → Cells.compare c₂ c₃ ≠ .gt →
        r.containsCells c₁ = .ok true → r.containsCells c₃ = .ok true → r.containsCells c₂ = .ok true) := by
  refine ⟨?_, fun r hr => ⟨fun c => ?_, fun c => containsCells_iff hr, fun c₁ c₂ c₃ => containsCells_of_between hr⟩⟩
  · simp only [ofBounds_eq_ok_iff]
    constructor
    · rintro ⟨r, hlower, hupper, bounds, hrows, hcontiguous, rfl⟩
      refine ⟨hlower, hupper, Bound.exists_ofRows_iff.1 ⟨bounds, hrows⟩, ?_⟩
      rw [← Bound.tags_of_ofRows hrows]
      exact Bound.isContiguous_iff.1 hcontiguous
    · rintro ⟨hlower, hupper, huncrossed, hinOrder⟩
      obtain ⟨bounds, hrows⟩ := Bound.exists_ofRows_iff.2 huncrossed
      rw [← Bound.tags_of_ofRows hrows] at hinOrder
      exact ⟨_, hlower, hupper, bounds, hrows, Bound.isContiguous_iff.2 hinOrder, rfl⟩
  · rw [exists_containsCells_error_iff, schema_of_ofBounds hr]

end Interval

namespace Sample

/-- A day and an hour, and the name of what was measured then. -/
def readingShape : Shape := .composite [("day", .leaf .integer), ("hour", .leaf .integer), ("what", .leaf .string)]

def readings : Schema :=
  ⟨"app::ReadingId", readingShape, [⟨"day", .integer⟩, ⟨"hour", .integer⟩, ⟨"what", .string⟩]⟩

/-- The ends of the morning of a day. -/
def morning : Cells scalars × Cells scalars :=
  ([some (.integer 1), some (.integer 6), none], [some (.integer 1), some (.integer 11), none])

def reading (hour : Int) (what : String) : Cells scalars := [some (.integer 1), some (.integer hour), some (.string what)]

end Sample

open Sample in
theorem Interval.contiguous_morning :
    Schema.ofShape "app::ReadingId" readingShape = .ok readings ∧
      ∃ r, ofBounds readings morning.1 morning.2 = .ok r ∧ (∃ e, r.containsCells [none] = .error e) ∧
        Cells.compare (reading 6 "wind") (reading 9 "rain") ≠ .gt ∧
        Cells.compare (reading 9 "rain") (reading 11 "wind") ≠ .gt ∧ r.containsCells (reading 9 "rain") = .ok true ∧
        ¬r.containsCells (reading 12 "rain") = .ok true := by
  have hshape : Schema.ofShape "app::ReadingId" readingShape = .ok readings := rfl
  obtain ⟨haccepts, hjudges⟩ := Interval.contiguous readings morning.1 morning.2
  have huncrossed : Bound.Uncrossed morning.1 morning.2 := by
    intro v w h
    obtain ⟨rfl, rfl⟩ | ⟨rfl, rfl⟩ : (v = .integer 1 ∧ w = .integer 1) ∨ (v = .integer 6 ∧ w = .integer 11) := by
      simpa [morning] using h
    · decide
    · decide
  obtain ⟨r, hr⟩ := haccepts.2 ⟨rfl, rfl, huncrossed, 1, 1, 1, Nat.le_refl _, by decide⟩
  obtain ⟨herror, hmem, hconvex⟩ := hjudges r hr
  have hfirst : r.containsCells (reading 6 "wind") = .ok true := (hmem _ rfl (by decide)).2 (by decide)
  have hlast : r.containsCells (reading 11 "wind") = .ok true := (hmem _ rfl (by decide)).2 (by decide)
  have hbefore : Cells.compare (reading 6 "wind") (reading 9 "rain") ≠ .gt := by decide
  have hafter : Cells.compare (reading 9 "rain") (reading 11 "wind") ≠ .gt := by decide
  exact ⟨hshape, r, hr, (herror _).2 (.inl nofun), hbefore, hafter,
    hconvex _ _ _ rfl (by decide) hbefore hafter hfirst hlast, mt (hmem _ rfl (by decide)).1 (by decide)⟩

end EntityStore

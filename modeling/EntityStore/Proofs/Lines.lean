import EntityStore.Proofs.KeyOrder
import EntityStore.Store.Shard
/-!
# Lines in the order of their keys

The lines of a shard ascend strictly by key.  Under that invariant a list of lines is its lookup: an update answers
for its own key and changes no other (`findLine_updateLine`), membership is lookup (`mem_iff_findLine`), and two lists
with the same members are the same list (`Ascending.ext`), which is why rows read in storage order need no sorting.
-/
namespace EntityStore

open Std

variable {X : Scalars}

/-- Keys in strictly ascending order. -/
def Ascending {α : Type} (l : List (Cells X × α)) : Prop := l.Pairwise (fun a b => Ord.compare a.1 b.1 = .lt)

namespace Ascending

variable {α β : Type}

theorem nil : Ascending ([] : List (Cells X × α)) := List.Pairwise.nil

theorem tail {p : Cells X × α} {l : List (Cells X × α)} (h : Ascending (p :: l)) : Ascending l := List.Pairwise.of_cons h

theorem lt_of_mem {p q : Cells X × α} {l : List (Cells X × α)} (h : Ascending (p :: l)) (hq : q ∈ l) :
    Ord.compare p.1 q.1 = .lt := List.rel_of_pairwise_cons h hq

theorem key_ne_of_lt {a b : Cells X} (h : Ord.compare a b = .lt) : a ≠ b := by
  rintro rfl
  rw [compare_self] at h
  cases h

theorem filter {l : List (Cells X × α)} (h : Ascending l) (p : Cells X × α → Bool) : Ascending (l.filter p) :=
  List.Pairwise.filter p h

theorem map {l : List (Cells X × α)} (h : Ascending l) (f : Cells X × α → Cells X × β) (hf : ∀ p, (f p).1 = p.1) :
    Ascending (l.map f) := by
  unfold Ascending
  rw [List.pairwise_map]
  exact List.Pairwise.imp (fun hlt => by rw [hf, hf]; exact hlt) h

theorem filterMap {l : List (Cells X × α)} (h : Ascending l) (f : Cells X × α → Option (Cells X × β))
    (hf : ∀ p q, f p = some q → q.1 = p.1) : Ascending (l.filterMap f) := by
  unfold Ascending
  rw [List.pairwise_filterMap]
  exact List.Pairwise.imp (fun hlt q hq q' hq' => by rw [hf _ _ hq, hf _ _ hq']; exact hlt) h

theorem head_eq {p q : Cells X × α} {l m : List (Cells X × α)} (hp : Ascending (p :: l)) (hq : Ascending (q :: m))
    (hpm : p ∈ q :: m) (hql : q ∈ p :: l) : p = q := by
  rcases List.mem_cons.1 hpm with rfl | hpm
  · rfl
  rcases List.mem_cons.1 hql with rfl | hql
  · rfl
  exact absurd (hq.lt_of_mem hpm) (OrientedCmp.not_lt_of_lt (hp.lt_of_mem hql))

/-- **Two ascending lists with the same members are equal.** -/
theorem ext : ∀ {l m : List (Cells X × α)}, Ascending l → Ascending m → (∀ p, p ∈ l ↔ p ∈ m) → l = m
  | [], [], _, _, _ => rfl
  | [], q :: m, _, _, h => absurd ((h q).2 List.mem_cons_self) List.not_mem_nil
  | p :: l, [], _, _, h => absurd ((h p).1 List.mem_cons_self) List.not_mem_nil
  | p :: l, q :: m, hl, hm, h => by
    have hpq : p = q := head_eq hl hm ((h p).1 List.mem_cons_self) ((h q).2 List.mem_cons_self)
    subst hpq
    have hnl : p ∉ l := fun hp => key_ne_of_lt (hl.lt_of_mem hp) rfl
    have hnm : p ∉ m := fun hp => key_ne_of_lt (hm.lt_of_mem hp) rfl
    rw [ext hl.tail hm.tail fun r => ?_]
    have hr := h r
    rw [List.mem_cons, List.mem_cons] at hr
    constructor
    · intro hrl
      exact (hr.1 (.inr hrl)).resolve_left (fun he => hnl (he ▸ hrl))
    · intro hrm
      exact (hr.2 (.inr hrm)).resolve_left (fun he => hnm (he ▸ hrm))

end Ascending

namespace Shard

variable {ρ : Type}

theorem findLine_eq_none_of_lt {c : Cells X} {l : List (Cells X × Line ρ)}
    (h : ∀ p ∈ l, Ord.compare c p.1 = .lt) : findLine c l = none := by
  induction l with
  | nil => rfl
  | cons p rest ih =>
    have hne : p.1 ≠ c := fun he => Ascending.key_ne_of_lt (h p List.mem_cons_self) he.symm
    simp only [findLine, hne, if_false]
    exact ih (fun q hq => h q (List.mem_cons_of_mem _ hq))

theorem mem_of_findLine {c : Cells X} {line : Line ρ} {l : List (Cells X × Line ρ)} (h : findLine c l = some line) :
    (c, line) ∈ l := by
  induction l with
  | nil => cases h
  | cons p rest ih =>
    obtain ⟨key, first⟩ := p
    simp only [findLine] at h
    split at h
    · rename_i hk
      cases h
      rw [hk]
      exact List.mem_cons_self
    · exact List.mem_cons_of_mem _ (ih h)

theorem mem_iff_findLine {c : Cells X} {line : Line ρ} {l : List (Cells X × Line ρ)} (hl : Ascending l) :
    (c, line) ∈ l ↔ findLine c l = some line := by
  refine ⟨fun h => ?_, mem_of_findLine⟩
  induction l with
  | nil => cases h
  | cons p rest ih =>
    rcases List.mem_cons.1 h with rfl | h'
    · simp [findLine]
    · have hne : p.1 ≠ c := Ascending.key_ne_of_lt (hl.lt_of_mem h')
      simp only [findLine, hne, if_false]
      exact ih hl.tail h'

theorem mem_updateLine {c : Cells X} {f : Line ρ → Line ρ} {q : Cells X × Line ρ} :
    ∀ {l : List (Cells X × Line ρ)}, q ∈ updateLine c f l → q.1 = c ∨ q ∈ l
  | [], h => by
    rw [List.mem_singleton.1 h]
    exact .inl rfl
  | (key, line) :: rest, h => by
    unfold updateLine at h
    split at h
    · rcases List.mem_cons.1 h with rfl | h
      · exact .inl rfl
      · exact .inr h
    · rename_i hc
      rcases List.mem_cons.1 h with rfl | h
      · exact .inl (LawfulEqOrd.eq_of_compare hc).symm
      · exact .inr (List.mem_cons_of_mem _ h)
    · rcases List.mem_cons.1 h with rfl | h
      · exact .inr List.mem_cons_self
      · exact (mem_updateLine h).imp id (List.mem_cons_of_mem _)

theorem ascending_updateLine (c : Cells X) (f : Line ρ → Line ρ) :
    ∀ {l : List (Cells X × Line ρ)}, Ascending l → Ascending (updateLine c f l)
  | [], _ => List.pairwise_singleton ..
  | (key, line) :: rest, h => by
    unfold updateLine
    split
    · rename_i hc
      refine List.Pairwise.cons (fun q hq => ?_) h
      rcases List.mem_cons.1 hq with rfl | hq
      · exact hc
      · exact TransCmp.lt_trans hc (h.lt_of_mem hq)
    · exact List.Pairwise.cons (fun q hq => h.lt_of_mem hq) h.tail
    · rename_i hc
      refine List.Pairwise.cons (fun q hq => ?_) (ascending_updateLine c f h.tail)
      rcases mem_updateLine hq with hq | hq
      · rw [hq]
        exact OrientedCmp.lt_of_gt hc
      · exact h.lt_of_mem hq

/-- **An update answers for its own key and changes no other.** -/
theorem findLine_updateLine (c j : Cells X) (f : Line ρ → Line ρ) {l : List (Cells X × Line ρ)} (h : Ascending l) :
    findLine j (updateLine c f l) = if c = j then some (f ((findLine c l).getD {})) else findLine j l := by
  induction l with
  | nil => by_cases hj : c = j <;> simp [updateLine, findLine, hj]
  | cons p rest ih =>
    obtain ⟨key, line⟩ := p
    unfold updateLine
    split
    · rename_i hc
      have hnone : findLine c ((key, line) :: rest) = none := by
        refine findLine_eq_none_of_lt fun q hq => ?_
        rcases List.mem_cons.1 hq with rfl | hq
        · exact hc
        · exact TransCmp.lt_trans hc (h.lt_of_mem hq)
      rw [hnone]
      by_cases hj : c = j <;> simp [findLine, hj]
    · rename_i hc
      have hk : c = key := LawfulEqOrd.eq_of_compare hc
      subst hk
      by_cases hj : c = j <;> simp [findLine, hj]
    · rename_i hc
      have hk : key ≠ c := Ascending.key_ne_of_lt (OrientedCmp.lt_of_gt hc)
      by_cases hj : key = j
      · subst hj
        simp [findLine, Ne.symm hk]
      · simp only [findLine, hj, hk, if_false]
        exact ih h.tail

theorem findLine_map_if (picks : Cells X → Bool) (f : Line ρ → Line ρ) (c : Cells X) (l : List (Cells X × Line ρ)) :
    findLine c (l.map (fun p => if picks p.1 then (p.1, f p.2) else p)) =
      (findLine c l).map (fun line => if picks c then f line else line) := by
  induction l with
  | nil => rfl
  | cons p rest ih =>
    obtain ⟨key, line⟩ := p
    by_cases hk : key = c
    · subst hk
      by_cases hp : picks key <;> simp [findLine, hp]
    · by_cases hp : picks key <;> simp [findLine, hk, hp, ih]

theorem findLine_map (f : Line ρ → Line ρ) (c : Cells X) (l : List (Cells X × Line ρ)) :
    findLine c (l.map (fun p => (p.1, f p.2))) = (findLine c l).map f := by
  simpa using findLine_map_if (fun _ => true) f c l

end Shard

end EntityStore

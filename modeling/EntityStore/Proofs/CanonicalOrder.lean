import EntityStore.Proofs.Lines
import EntityStore.Proofs.SetReads
/-!
# Answers in canonical order

What a set of identifiers brings is collected under the identifiers and sorted at the end.  `EntityType.Lists` says that
a list has the entities that are wanted, each once and in canonical order.  There is one such list at most
(`Lists.unique`), and sorting makes it of any entities with distinct keys (`exists_lists_sortById`), so that an answer
does not show where its entities came from, or in which order.  Keys may repeat in what is sorted: it then comes out in
the order of a table (`InTableOrder`), and as it was if it stood so before (`sortById_eq_self_iff`).
-/
namespace EntityStore

open Std

variable {X : Scalars}

/-! ## Lists that are sorted by key -/

theorem Cells.pairwise_mergeSort {α : Type} (l : List (Cells X × α)) :
    (l.mergeSort fun p q => p.1.compare q.1 ≠ .gt).Pairwise fun p q => (Ord.compare p.1 q.1).isLE := by
  have hle : ∀ a b : Cells X × α, decide (a.1.compare b.1 ≠ .gt) = (Ord.compare a.1 b.1).isLE := by
    intro a b
    rw [Cells.compare_eq]
    cases Ord.compare a.1 b.1 <;> rfl
  simp only [hle]
  refine List.pairwise_mergeSort (fun a b c : Cells X × α => (TransCmp.isLE_trans :
    (Ord.compare a.1 b.1).isLE → (Ord.compare b.1 c.1).isLE → (Ord.compare a.1 c.1).isLE)) (fun a b => ?_) l
  rw [OrientedOrd.eq_swap (a := b.1)]
  cases Ord.compare a.1 b.1 <;> rfl

/-- **Entries with distinct keys ascend once they are sorted.** -/
theorem Ascending.mergeSort {α : Type} {l : List (Cells X × α)} (h : l.Pairwise fun p q => p.1 ≠ q.1) :
    Ascending (l.mergeSort fun p q => p.1.compare q.1 ≠ .gt) := by
  have hdistinct := (List.mergeSort_perm l fun p q => p.1.compare q.1 ≠ .gt).symm.pairwise h fun hne => Ne.symm hne
  refine ((Cells.pairwise_mergeSort l).and hdistinct).imp ?_
  rintro p q ⟨hpq, hne⟩
  cases hc : Ord.compare p.1 q.1 with
  | lt => rfl
  | eq => exact absurd (LawfulEqOrd.eq_of_compare hc) hne
  | gt =>
    rw [hc] at hpq
    cases hpq

namespace EntityType

variable {E : EntityType X}

theorem mem_keyed (c : Cells X) (e : E.Entity) : ∀ {entities : List E.Entity} {pairs : List (Cells X × E.Entity)},
    E.keyed entities = .ok pairs → ((c, e) ∈ pairs ↔ e ∈ entities ∧ E.flatten (E.idOf e) = .ok c)
  | [], _, h => by
    cases h
    simp
  | first :: rest, pairs, h => by
    unfold keyed at h
    split at h
    · cases h
    · rename_i c' hflat
      split at h
      · cases h
      · rename_i more hmore
        cases h
        rw [List.mem_cons, mem_keyed c e hmore, List.mem_cons]
        constructor
        · rintro (heq | ⟨he, hc⟩)
          · cases heq
            exact ⟨.inl rfl, hflat⟩
          · exact ⟨.inr he, hc⟩
        · rintro ⟨rfl | he, hc⟩
          · rw [hflat] at hc
            cases hc
            exact .inl rfl
          · exact .inr ⟨he, hc⟩

theorem keyed_map_snd : ∀ {pairs : List (Cells X × E.Entity)}, (∀ p ∈ pairs, E.flatten (E.idOf p.2) = .ok p.1) →
    E.keyed (pairs.map Prod.snd) = .ok pairs
  | [], _ => rfl
  | p :: rest, h => by
    rw [List.map_cons, keyed, h p List.mem_cons_self]
    dsimp only
    rw [keyed_map_snd fun q hq => h q (List.mem_cons_of_mem p hq)]

theorem exists_keyed : ∀ {entities : List E.Entity}, (∀ e ∈ entities, ∃ c, E.flatten (E.idOf e) = .ok c) →
    ∃ pairs, E.keyed entities = .ok pairs
  | [], _ => ⟨[], rfl⟩
  | first :: rest, h => by
    obtain ⟨c, hc⟩ := h first List.mem_cons_self
    obtain ⟨more, hmore⟩ := exists_keyed fun e he => h e (List.mem_cons_of_mem first he)
    rw [keyed, hc]
    dsimp only
    rw [hmore]
    exact ⟨_, rfl⟩

/-- Entities whose identifiers flatten, to keys that come in the order of a table. -/
def InTableOrder (E : EntityType X) (entities : List E.Entity) : Prop :=
  ∃ pairs, E.keyed entities = .ok pairs ∧ pairs.Pairwise fun p q => Ord.compare p.1 q.1 ≠ .gt

theorem inTableOrder_of_sortById {entities sorted : List E.Entity} (h : E.sortById entities = .ok sorted) :
    E.InTableOrder sorted := by
  obtain ⟨-, pairs, -, hpairs, rfl⟩ := sortById_eq_ok_iff.1 h
  refine ⟨_, keyed_map_snd fun p hp => ((mem_keyed p.1 p.2 hpairs).1 (List.mem_mergeSort.1 hp)).2, ?_⟩
  exact (Cells.pairwise_mergeSort pairs).imp Ordering.ne_gt_iff_isLE.2

/-- **Sorting leaves entities as they are exactly if they stand in the order of a table.** -/
theorem sortById_eq_self_iff {schema : Schema} (hschema : E.schema = .ok schema) {entities : List E.Entity} :
    E.sortById entities = .ok entities ↔ E.InTableOrder entities := by
  refine ⟨inTableOrder_of_sortById, fun ⟨pairs, hpairs, hordered⟩ => ?_⟩
  have hordered' : pairs.Pairwise fun p q => decide (p.1.compare q.1 ≠ .gt) = true :=
    hordered.imp fun {p q} hpq => decide_eq_true (Cells.compare_eq p.1 q.1 ▸ hpq)
  refine sortById_eq_ok_iff.2 ⟨schema, pairs, hschema, hpairs, ?_⟩
  rw [List.mergeSort_of_pairwise hordered', map_snd_of_keyed hpairs]

/-- **Entities whose identifiers flatten can be sorted.** -/
theorem exists_sortById {schema : Schema} (hschema : E.schema = .ok schema) {entities : List E.Entity}
    (hflat : ∀ e ∈ entities, ∃ c, E.flatten (E.idOf e) = .ok c) : ∃ sorted, E.sortById entities = .ok sorted := by
  obtain ⟨pairs, hpairs⟩ := exists_keyed hflat
  exact ⟨_, sortById_eq_ok_iff.2 ⟨schema, pairs, hschema, hpairs, rfl⟩⟩

/-- A list of the entities that are wanted, each once and in canonical order. -/
structure Lists (E : EntityType X) (wanted : E.Entity → Prop) (es : List E.Entity) : Prop where
  mem : ∀ e, e ∈ es ↔ wanted e
  ascending : ∃ pairs, E.keyed es = .ok pairs ∧ Ascending pairs

/-- **The entities that are wanted have one list in canonical order.** -/
theorem Lists.unique {wanted : E.Entity → Prop} {es es' : List E.Entity} (h : E.Lists wanted es)
    (h' : E.Lists wanted es') : es = es' := by
  obtain ⟨pairs, hpairs, hascending⟩ := h.ascending
  obtain ⟨pairs', hpairs', hascending'⟩ := h'.ascending
  have hsame : pairs = pairs' := hascending.ext hascending' fun ⟨c, e⟩ => by
    rw [mem_keyed c e hpairs, mem_keyed c e hpairs', h.mem, h'.mem]
  rw [← map_snd_of_keyed hpairs, ← map_snd_of_keyed hpairs', hsame]

theorem Lists.inTableOrder {wanted : E.Entity → Prop} {es : List E.Entity} (h : E.Lists wanted es) :
    E.InTableOrder es := by
  obtain ⟨pairs, hpairs, hascending⟩ := h.ascending
  exact ⟨pairs, hpairs, hascending.imp fun {p q} hpq => by rw [hpq]; exact nofun⟩

theorem Lists.congr {wanted wanted' : E.Entity → Prop} {es : List E.Entity} (h : E.Lists wanted es)
    (hwanted : ∀ e, wanted e ↔ wanted' e) : E.Lists wanted' es :=
  ⟨fun e => (h.mem e).trans (hwanted e), h.ascending⟩

/-- **Entities with distinct keys can be sorted**, and are then listed. -/
theorem exists_lists_sortById {schema : Schema} (hschema : E.schema = .ok schema) {entities : List E.Entity}
    (hflat : ∀ e ∈ entities, ∃ c, E.flatten (E.idOf e) = .ok c)
    (hdistinct : entities.Pairwise fun a b => E.flatten (E.idOf a) ≠ E.flatten (E.idOf b)) :
    ∃ es, E.sortById entities = .ok es ∧ E.Lists (· ∈ entities) es := by
  obtain ⟨pairs, hpairs⟩ := exists_keyed hflat
  have hown : ∀ p ∈ pairs, E.flatten (E.idOf p.2) = .ok p.1 := fun p hp => ((mem_keyed p.1 p.2 hpairs).1 hp).2
  have hkeys : pairs.Pairwise fun p q => p.1 ≠ q.1 := by
    rw [← map_snd_of_keyed hpairs, List.pairwise_map] at hdistinct
    refine hdistinct.imp_of_mem fun hp hq hne heq => hne ?_
    rw [hown _ hp, hown _ hq, heq]
  have hsorted := sortById_eq_ok_iff.2 ⟨schema, pairs, hschema, hpairs, rfl⟩
  refine ⟨_, hsorted, mem_sortById_iff hsorted, _, keyed_map_snd fun p hp => ?_, Ascending.mergeSort hkeys⟩
  exact hown p (List.mem_mergeSort.1 hp)

end EntityType

/-! ## Collecting entities under their identifiers -/

theorem Dict.mem_put {α β : Type} [DecidableEq α] {k : α} {v : β} {p : α × β} {l : List (α × β)} (h : p ∈ put k v l) :
    p = (k, v) ∨ p ∈ l := by
  induction l with
  | nil => exact .inl (List.mem_singleton.1 h)
  | cons q rest ih =>
    unfold put at h
    split at h
    · exact (List.mem_cons.1 h).imp_right (List.mem_cons_of_mem q)
    · rcases List.mem_cons.1 h with rfl | h
      · exact .inr List.mem_cons_self
      · exact (ih h).imp_right (List.mem_cons_of_mem _)

theorem Dict.pairwise_insert {α β : Type} [DecidableEq α] {d : Dict α β} (h : d.entries.Pairwise fun p q => p.1 ≠ q.1)
    (k : α) (v : β) : (d.insert k v).entries.Pairwise fun p q => p.1 ≠ q.1 := by
  obtain ⟨entries⟩ := d
  show (put k v entries).Pairwise _
  dsimp only at h
  induction entries with
  | nil => exact List.pairwise_singleton ..
  | cons q rest ih =>
    obtain ⟨hq, hrest⟩ := List.pairwise_cons.1 h
    unfold put
    split
    · rename_i heq
      exact List.pairwise_cons.2 ⟨fun p hp => heq ▸ hq p hp, hrest⟩
    · rename_i hne
      refine List.pairwise_cons.2 ⟨fun p hp => ?_, ih hrest⟩
      rcases mem_put hp with rfl | hp
      · exact hne
      · exact hq p hp

/-- Values stand under the keys that are read off them, and no key comes twice. -/
structure Dict.Filed {α β : Type} (f : β → α) (d : Dict α β) : Prop where
  own : ∀ p ∈ d.entries, f p.2 = p.1
  distinct : d.entries.Pairwise fun p q => p.1 ≠ q.1

namespace Dict.Filed

variable {α β : Type} [DecidableEq α] {f : β → α} {d : Dict α β}

omit [DecidableEq α] in
theorem empty (f : β → α) : Filed f ({} : Dict α β) := ⟨nofun, List.Pairwise.nil⟩

theorem insert (h : Filed f d) {k : α} {v : β} (hk : f v = k) : Filed f (d.insert k v) where
  own p hp := by
    rcases mem_put hp with rfl | hp
    · exact hk
    · exact h.own p hp
  distinct := pairwise_insert h.distinct k v

omit [DecidableEq α] in
theorem pairwise_values (h : Filed f d) : d.values.Pairwise fun a b => f a ≠ f b := by
  unfold Dict.values
  rw [List.pairwise_map]
  refine h.distinct.imp_of_mem fun hp hq hne => ?_
  rw [h.own _ hp, h.own _ hq]
  exact hne

end Dict.Filed

namespace Cache

variable {E : EntityType X} {V : E.Id → Option E.Entity → Prop} {c : Cache E}

theorem Holds.filed_held (h : c.Holds V) (ids : List E.Id) : (c.held ids).Filed E.idOf := by
  induction ids using List.reverseRecOn with
  | nil => exact .empty E.idOf
  | append_singleton ids id ih =>
    rw [held_concat]
    split
    · rename_i e he
      obtain ⟨slot, hslot, hentity⟩ := Option.bind_eq_some_iff.1 he
      exact ih.insert ((h id slot hslot).2 e hentity)
    · exact ih

theorem Holds.filed_absorbRows (hload : KeepsIds E) : ∀ (rows : List E.Entity) {c : Cache E}
    {found : Dict E.Id E.Entity}, c.Holds V → (∀ row ∈ rows, Agrees V c row) → found.Filed E.idOf →
      (c.absorbRows found rows).1.Filed E.idOf
  | [], _, _, _, _, hfound => hfound
  | row :: rest, c, found, h, hrows, hfound => by
    have hrow := hrows row List.mem_cons_self
    obtain ⟨hfirst, hlearnt, -⟩ := h.absorb hload hrow
    have hrest := fun row' hrow' => (hrows row' (List.mem_cons_of_mem row hrow')).extends hlearnt
    have hown := (h.absorb_view hload hrow).2
    rw [Cache.absorbRows]
    generalize c.absorb row = answer at hfirst hrest hown
    obtain ⟨e?, c'⟩ := answer
    cases e? with
    | none => exact Holds.filed_absorbRows hload rest hfirst hrest hfound
    | some e => exact Holds.filed_absorbRows hload rest hfirst hrest (hfound.insert (hown e rfl))

/-- **A merge answers with a list in canonical order**: of the view of the identifiers that are known, and of the rows. -/
theorem Holds.lists_merged (hV : Decides V) (h : c.Holds V) (hload : KeepsIds E) (hids : E.TellsApart)
    (hflat : ∀ id e, V id (some e) → ∃ key, E.flatten id = .ok key ∧ Cells.isPartial key = false)
    {schema : Schema} (hschema : E.schema = .ok schema) (ids : List E.Id) {rows : List E.Entity}
    (hrows : ∀ row ∈ rows, Agrees V c row) :
    ∃ es, E.sortById (c.absorbRows (c.held ids) rows).1.values = .ok es ∧
      E.Lists (fun e => V (E.idOf e) (some e) ∧
        ((E.idOf e ∈ ids ∧ c.contains (E.idOf e) = true) ∨ ∃ row ∈ rows, E.idOf row = E.idOf e)) es := by
  have hview := (Holds.absorbRows hload rows h hrows (h.held ids)).2.2
  have hdistinct : (c.absorbRows (c.held ids) rows).1.values.Pairwise
      fun a b => E.flatten (E.idOf a) ≠ E.flatten (E.idOf b) := by
    refine (h.filed_absorbRows hload rows hrows (h.filed_held ids)).pairwise_values.imp_of_mem ?_
    intro a b ha hb hne heq
    obtain ⟨key, hkey, hcomplete⟩ := hflat _ a (hview a ha)
    exact hne (hids _ _ key hkey (heq ▸ hkey) hcomplete)
  obtain ⟨es, hes, hlists⟩ := EntityType.exists_lists_sortById hschema
    (fun e he => (hflat _ e (hview e he)).imp fun _ => And.left) hdistinct
  exact ⟨es, hes, h.mem_merged_iff hV hload hrows hes, hlists.ascending⟩

end Cache

end EntityStore

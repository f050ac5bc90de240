import EntityStore.Identifier.Interval
import EntityStore.Proofs.Leaves
import Mathlib.Data.List.Nodup
/-!
# The names of fields

A shape is checked for equal names beside each other, one composite at a time, while the name of a field is the whole
way to it.  The ways differ whenever the shape is accepted; their texts can meet only if a part's name begins with the
name of a composite beside it and a dot (`Shape.Unambiguous`).  Where none does, a name leads to one field
(`Schema.distinct_names`), in a schema as in what an interval shows; `Schema.dotted_names_meet` is a schema of another
kind.
-/
namespace EntityStore

variable {X : Scalars}

namespace Shape

/-- Parts that stand beside each other have different names. -/
def DistinctParts : Shape → Prop
  | .composite parts => (parts.map Prod.fst).Nodup
  | _ => True

/-- No part has a name that begins with the name of a composite beside it and a dot. -/
def Unambiguous : Shape → Prop
  | .composite parts => ∀ name inner, (name, composite inner) ∈ parts → ∀ other ∈ parts, ∀ rest,
      other.1 ≠ name ++ "." ++ rest
  | _ => True

variable {shape : Shape} {parts : List (String × Shape)}

theorem unambiguous_of_undotted (h : ∀ part ∈ parts, '.' ∉ part.1.toList) : (composite parts).Unambiguous := by
  intro name inner _ other hother rest heq
  refine h other hother ?_
  rw [heq, String.toList_append, String.toList_append]
  exact List.mem_append_left _ (List.mem_append_right _ (by decide))

mutual

/-- **The check of a shape separates the parts that stand beside each other.** -/
theorem distinctParts_of_fields (path : String) : ∀ (shape : Shape) {fields : List Field},
    shape.fields path = .ok fields → shape.Everywhere DistinctParts
  | .leaf _, _, _ => everywhere_leaf_iff.2 trivial
  | .converted _, _, _ => everywhere_converted_iff.2 trivial
  | .composite parts, _, h => by
    obtain ⟨hnames, -, hparts⟩ := distinctParts_of_fieldsOfParts (path ++ ".") [] parts h
    exact everywhere_composite_iff.2 ⟨hnames, hparts⟩

theorem distinctParts_of_fieldsOfParts (folder : String) (seen : List String) :
    ∀ (parts : List (String × Shape)) {fields : List Field}, fieldsOfParts folder seen parts = .ok fields →
      (parts.map Prod.fst).Nodup ∧ (∀ name ∈ seen, name ∉ parts.map Prod.fst) ∧
        ∀ part ∈ parts, part.2.Everywhere DistinctParts
  | [], _, _ => ⟨.nil, fun _ _ => List.not_mem_nil, nofun⟩
  | (name, part) :: rest, _, h => by
    obtain ⟨hnew, here, more, hhere, hmore, -⟩ := fieldsOfParts_cons_eq_ok_iff.1 h
    obtain ⟨hnodup, hseen, hparts⟩ := distinctParts_of_fieldsOfParts folder (name :: seen) rest hmore
    refine ⟨List.nodup_cons.2 ⟨hseen name List.mem_cons_self, hnodup⟩, fun other hother hmem => ?_, fun p hp => ?_⟩
    · rcases List.mem_cons.1 hmem with rfl | hmem
      · exact hnew hother
      · exact hseen other (List.mem_cons_of_mem name hother) hmem
    · rcases List.mem_cons.1 hp with rfl | hp
      · exact distinctParts_of_fields _ part hhere
      · exact hparts p hp

end

theorem position_eq_of_name_eq (hnames : (parts.map Prod.fst).Nodup) {i j : Nat} {part part' : String × Shape}
    (hi : parts[i]? = some part) (hj : parts[j]? = some part') (h : part.1 = part'.1) : i = j := by
  have hi' : (parts.map Prod.fst)[i]? = some part.1 := by rw [List.getElem?_map, hi, Option.map_some]
  have hj' : (parts.map Prod.fst)[j]? = some part.1 := by rw [List.getElem?_map, hj, Option.map_some, h]
  exact (List.getElem?_inj (List.getElem?_eq_some_iff.1 hi').1 hnames).1 (hi'.trans hj'.symm)

/-- **Leaves with the same names on the way are one leaf.** -/
theorem eq_of_path_eq (h : shape.Everywhere DistinctParts) {l l' : Leaf} (hl : l ∈ shape.leaves)
    (hl' : l' ∈ shape.leaves) (heq : l.path = l'.path) : l = l' := by
  induction shape using induction generalizing l l' with
  | leaf kind => rw [List.mem_singleton.1 hl, List.mem_singleton.1 hl']
  | converted kind => rw [List.mem_singleton.1 hl, List.mem_singleton.1 hl']
  | composite parts ih =>
    obtain ⟨hnames, hparts⟩ := everywhere_composite_iff.1 h
    obtain ⟨i, part, hi, below, hbelow, rfl⟩ := mem_leaves_composite_iff.1 hl
    obtain ⟨j, part', hj, below', hbelow', rfl⟩ := mem_leaves_composite_iff.1 hl'
    obtain ⟨hname, hpath⟩ := List.cons.inj heq
    obtain rfl := position_eq_of_name_eq hnames hi hj hname
    cases hi.symm.trans hj
    have hmem := List.mem_of_getElem? hi
    rw [ih part hmem (hparts part hmem) hbelow hbelow' hpath]

end Shape

/-! ## Dotted names -/

namespace Leaf

/-- What stands in a leaf's name behind the name of the part that has the leaf. -/
def tail (l : Leaf) : List Char := if l.path = [] then [] else '.' :: l.name.toList

theorem toList_name_inside (position : Nat) (name : String) (l : Leaf) :
    (l.inside position name).name.toList = name.toList ++ l.tail := by
  unfold tail
  split
  · rename_i hpath
    rw [Leaf.name, inside, hpath, String.intercalate_singleton, List.append_nil]
  · rename_i hpath
    rw [Leaf.name, inside, Shape.dotted_cons name hpath, String.toList_append, String.toList_append, List.append_assoc]
    rfl

theorem name_eq_of_tail_eq {l l' : Leaf} (h : l.tail = l'.tail) : l.name = l'.name := by
  unfold tail at h
  split at h <;> split at h
  · rename_i hpath hpath'
    rw [Leaf.name, Leaf.name, hpath, hpath']
  · cases h
  · cases h
  · exact String.toList_inj.1 (List.cons.inj h).2

end Leaf

namespace Shape

variable {shape : Shape} {parts : List (String × Shape)}

/-- A part whose leaves have names in between goes on with a dot, and no part beside it does. -/
theorem Unambiguous.eq_nil (h : (composite parts).Unambiguous) {part other : String × Shape} (hpart : part ∈ parts)
    (hother : other ∈ parts) {below : Leaf} (hbelow : below ∈ part.2.leaves) {between rest : List Char}
    (hname : other.1.toList = part.1.toList ++ between) (htail : below.tail = between ++ rest) : between = [] := by
  cases between with
  | nil => rfl
  | cons c between =>
    obtain ⟨name, inner⟩ := part
    unfold Leaf.tail at htail
    split at htail
    · cases htail
    · rename_i hpath
      obtain ⟨rfl, -⟩ := List.cons.inj htail
      cases inner with
      | leaf kind => exact absurd (congrArg Leaf.path (List.mem_singleton.1 hbelow)) hpath
      | converted kind => exact absurd (congrArg Leaf.path (List.mem_singleton.1 hbelow)) hpath
      | composite inner =>
        refine absurd ?_ (h name inner hpart other hother (String.ofList between))
        rw [← String.toList_inj, hname]
        simp

/-- **Leaves of one name are one leaf**, where no name is ambiguous. -/
theorem eq_of_name_eq (h : shape.Everywhere DistinctParts) (hclear : shape.Everywhere Unambiguous) {l l' : Leaf}
    (hl : l ∈ shape.leaves) (hl' : l' ∈ shape.leaves) (heq : l.name = l'.name) : l = l' := by
  induction shape using induction generalizing l l' with
  | leaf kind => rw [List.mem_singleton.1 hl, List.mem_singleton.1 hl']
  | converted kind => rw [List.mem_singleton.1 hl, List.mem_singleton.1 hl']
  | composite parts ih =>
    obtain ⟨hnames, hparts⟩ := everywhere_composite_iff.1 h
    obtain ⟨hroot, hclears⟩ := everywhere_composite_iff.1 hclear
    obtain ⟨i, part, hi, below, hbelow, rfl⟩ := mem_leaves_composite_iff.1 hl
    obtain ⟨j, part', hj, below', hbelow', rfl⟩ := mem_leaves_composite_iff.1 hl'
    have hmem := List.mem_of_getElem? hi
    have hmem' := List.mem_of_getElem? hj
    have htexts : part.1.toList ++ below.tail = part'.1.toList ++ below'.tail := by
      rw [← Leaf.toList_name_inside i, ← Leaf.toList_name_inside j, heq]
    -- one of the two names begins with the other; what is between them is empty
    have hname : part.1.toList = part'.1.toList := by
      rcases List.append_eq_append_iff.1 htexts with ⟨between, hlonger, htail⟩ | ⟨between, hlonger, htail⟩
      · rw [hlonger, hroot.eq_nil hmem hmem' hbelow hlonger htail, List.append_nil]
      · rw [hlonger, hroot.eq_nil hmem' hmem hbelow' hlonger htail, List.append_nil]
    obtain rfl := position_eq_of_name_eq hnames hi hj (String.toList_inj.1 hname)
    cases hi.symm.trans hj
    have htails : below.name = below'.name := Leaf.name_eq_of_tail_eq (List.append_cancel_left htexts)
    rw [ih part hmem (hparts part hmem) (hclears part hmem) hbelow hbelow' htails]

theorem nodup_leaves (shape : Shape) : shape.leaves.Nodup :=
  shape.pairwise_route.imp fun {l l'} hlt heq => by
    subst heq
    exact List.lt_irrefl _ hlt

end Shape

namespace Schema

variable {typeName : String} {shape : Shape} {s : Schema}

theorem distinctParts_of_ofShape (h : ofShape typeName shape = .ok s) : shape.Everywhere Shape.DistinctParts := by
  unfold ofShape at h
  split at h
  · cases h
  · rename_i fields hfields
    unfold fieldsOf at hfields
    split at hfields
    · cases hfields
    · exact Shape.everywhere_converted_iff.2 trivial
    · rename_i parts
      split at hfields
      · cases hfields
      · rename_i listed hlisted
        obtain ⟨hnames, -, hparts⟩ := Shape.distinctParts_of_fieldsOfParts "" [] parts hlisted
        exact Shape.everywhere_composite_iff.2 ⟨hnames, hparts⟩

theorem nodup_fieldNames (h : ofShape typeName shape = .ok s) (hclear : shape.Everywhere Shape.Unambiguous) :
    s.fieldNames.Nodup := by
  have hdistinct := distinctParts_of_ofShape h
  obtain ⟨-, -, hfields⟩ := fields_of_ofShape h
  rw [fieldNames, hfields]
  cases shape with
  | leaf kind => exact List.nodup_singleton _
  | converted kind => exact List.nodup_singleton _
  | composite parts =>
    show (((Shape.composite parts).leaves.map Leaf.field).map Field.name).Nodup
    rw [List.map_map]
    exact List.Nodup.map_on (fun l hl l' hl' => Shape.eq_of_name_eq hdistinct hclear hl hl')
      (Shape.composite parts).nodup_leaves

theorem index?_eq_some_iff (h : s.fieldNames.Nodup) {name : String} {i : Nat} :
    s.index? name = some i ↔ s.fieldNames[i]? = some name := by
  rw [index?, List.findIdx?_eq_some_iff_getElem, fieldNames, List.getElem?_map, Option.map_eq_some_iff]
  simp only [decide_eq_true_eq, List.getElem?_eq_some_iff]
  constructor
  · rintro ⟨hi, hname, -⟩
    exact ⟨s.fields[i], ⟨hi, rfl⟩, hname⟩
  · rintro ⟨field, ⟨hi, rfl⟩, rfl⟩
    refine ⟨hi, rfl, fun j (hj : j < i) heq => ?_⟩
    have hj' : j < s.fields.length := Nat.lt_trans hj hi
    have hsame : s.fieldNames[j]? = s.fieldNames[i]? := by
      rw [fieldNames, List.getElem?_map, List.getElem?_map, List.getElem?_eq_getElem hi, List.getElem?_eq_getElem hj',
        Option.map_some, Option.map_some, heq]
    exact Nat.ne_of_lt hj ((List.getElem?_inj (by rwa [fieldNames, List.length_map]) h).1 hsame)

end Schema

/-! ## What an interval shows -/

namespace Interval

variable {r : Interval X} {pick : Bound X → Option (Value X)}

theorem mem_named_iff {name : String} {v : Value X} : (name, v) ∈ r.named pick ↔
    ∃ (i : Nat) (bound : Bound X), r.schema.fieldNames[i]? = some name ∧ r.bounds[i]? = some bound ∧
      pick bound = some v := by
  unfold named
  rw [List.mem_filterMap]
  simp only [Option.map_eq_some_iff, Prod.mk.injEq]
  simp only [List.mem_iff_getElem?, List.getElem?_zip_eq_some]
  constructor
  · rintro ⟨⟨_, bound⟩, ⟨i, hname, hbound⟩, w, hw, rfl, rfl⟩
    exact ⟨i, bound, hname, hbound, hw⟩
  · rintro ⟨i, bound, hname, hbound, hv⟩
    exact ⟨(name, bound), ⟨i, hname, hbound⟩, v, hv, rfl, rfl⟩

theorem sublist_named (r : Interval X) (pick : Bound X → Option (Value X)) :
    ((r.named pick).map Prod.fst).Sublist r.schema.fieldNames := by
  unfold named
  generalize r.schema.fieldNames = names
  generalize r.bounds = bounds
  induction names generalizing bounds with
  | nil => exact .slnil
  | cons name names ih =>
    cases bounds with
    | nil => exact List.nil_sublist _
    | cons bound bounds =>
      rw [List.zip_cons_cons, List.filterMap_cons]
      cases pick bound with
      | none => exact (ih bounds).cons name
      | some v => exact (ih bounds).cons_cons name

/-- A view of an interval names each field at most once, and what it shows under a name is what `pick` reads off the
bound of the field to which the name leads. -/
structure Shows (r : Interval X) (view : List (String × Value X)) (pick : Bound X → Option (Value X)) : Prop where
  distinct : (view.map Prod.fst).Nodup
  mem : ∀ name v, (name, v) ∈ view ↔
    ∃ (i : Nat) (bound : Bound X), r.schema.index? name = some i ∧ r.bounds[i]? = some bound ∧ pick bound = some v

theorem shows_named (h : r.schema.fieldNames.Nodup) (pick : Bound X → Option (Value X)) : r.Shows (r.named pick) pick where
  distinct := (r.sublist_named pick).nodup h
  mem name v := by simp only [mem_named_iff, Schema.index?_eq_some_iff h]

end Interval

/-- **A name leads to one field.**  The ways to the leaves of a shape that is accepted are distinct.  Where no part's
name begins with the name of a composite beside it and a dot, the dotted names are distinct as well: each is found in
its place, and an interval shows no two fields under one name, neither in one of its views nor in two of them. -/
theorem Schema.distinct_names {typeName : String} {shape : Shape} {s : Schema} (h : ofShape typeName shape = .ok s) :
    (shape.leaves.map Leaf.path).Nodup ∧
    (shape.Everywhere Shape.Unambiguous →
      s.fieldNames.Nodup ∧ (∀ (i : Nat) (field : Field), s.fields[i]? = some field → s.index? field.name = some i) ∧
      ∀ (X : Scalars) (r : Interval X), r.schema = s → r.Shows r.pinned Bound.equal? ∧ r.Shows r.lower Bound.lower? ∧
        r.Shows r.upper Bound.upper?) := by
  have hpaths : (shape.leaves.map Leaf.path).Nodup :=
    List.Nodup.map_on (fun l hl l' hl' => Shape.eq_of_path_eq (distinctParts_of_ofShape h) hl hl') shape.nodup_leaves
  refine ⟨hpaths, fun hclear => ?_⟩
  have hnames := nodup_fieldNames h hclear
  refine ⟨hnames, fun i field hfield => ?_, ?_⟩
  · rw [index?_eq_some_iff hnames, fieldNames, List.getElem?_map, hfield, Option.map_some]
  · rintro X r rfl
    exact ⟨Interval.shows_named hnames _, Interval.shows_named hnames _, Interval.shows_named hnames _⟩

open Sample in
theorem Schema.distinct_names_shelves :
    ofShape "app::ShelfId" shelfShape = .ok shelves ∧ shelfShape.Everywhere Shape.Unambiguous ∧
      shelves.fieldNames.Nodup ∧ shelves.index? "shelf" = some 1 := by
  have hclear : shelfShape.Everywhere Shape.Unambiguous := by
    have hinner : (Shape.composite [("name", .leaf .string), ("light", .composite [])]).Unambiguous :=
      Shape.unambiguous_of_undotted (by simp)
    have houter : shelfShape.Unambiguous := Shape.unambiguous_of_undotted (by simp)
    simp only [shelfShape, Shape.everywhere_composite_iff, List.forall_mem_cons, Shape.everywhere_leaf_iff]
    exact ⟨houter, ⟨hinner, trivial, ⟨Shape.unambiguous_of_undotted nofun, nofun⟩, nofun⟩, trivial, nofun⟩
  obtain ⟨hnames, hplaces, -⟩ := (Schema.distinct_names ofShape_shelves).2 hclear
  exact ⟨ofShape_shelves, hclear, hnames, hplaces 1 ⟨"shelf", .integer⟩ rfl⟩

namespace Sample

/-- An hour stands beside a day and, under the same dotted name, in it. -/
def hourShape : Shape := .composite [("day.hour", .leaf .integer), ("day", .composite [("hour", .leaf .integer)])]

end Sample

open Sample in
/-- Names with dots may meet in a schema that is accepted, and then lead to one field of two. -/
theorem Schema.dotted_names_meet : ∃ s, ofShape "app::HourId" hourShape = .ok s ∧
    s.fieldNames = ["day.hour", "day.hour"] ∧ ¬s.fieldNames.Nodup ∧
    ∃ field, s.fields[1]? = some field ∧ s.index? field.name = some 0 := by
  have hshape : ofShape "app::HourId" hourShape =
      .ok ⟨"app::HourId", hourShape, [⟨"day.hour", .integer⟩, ⟨"day.hour", .integer⟩]⟩ := by cbv
  exact ⟨_, hshape, rfl, by simp [fieldNames], _, rfl, by cbv⟩

end EntityStore

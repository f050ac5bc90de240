import EntityStore.Identifier.Schema
import Mathlib.Data.List.Basic
/-!
# The leaves of a shape

A place in a shape, and in a node over it, is given by a route, the positions of the parts on the way (`Shape.at?`,
`Node.at?`); the lexicographic order of routes goes depth first.  `Shape.leaves` lists the leaves in that order, each
with its route, the names on the way and its kind.

The checks that a shape passes are read off in `Shape.fieldsOfParts_cons_eq_ok_iff`.  The fields of a schema are the
leaves of its shape with their names joined by dots, or the single field (`Schema.fields_of_ofShape`).
-/
namespace EntityStore

/-- A leaf of a shape, with the way that leads to it. -/
structure Leaf where
  /-- The positions of the parts on the way. -/
  route : List Nat
  /-- The names of the parts on the way. -/
  path : List String
  kind : Kind

namespace Leaf

/-- The leaf of a part, seen from the composite that has the part in the given position. -/
def inside (position : Nat) (name : String) (l : Leaf) : Leaf := ⟨position :: l.route, name :: l.path, l.kind⟩

/-- The names on the way, joined by dots. -/
def name (l : Leaf) : String := ".".intercalate l.path

def field (l : Leaf) : Field := ⟨l.name, l.kind⟩

end Leaf

namespace Shape

@[elab_as_elim]
theorem induction {motive : Shape → Prop} (leaf : ∀ kind, motive (.leaf kind))
    (converted : ∀ kind, motive (.converted kind))
    (composite : ∀ parts : List (String × Shape), (∀ part ∈ parts, motive part.2) → motive (.composite parts)) :
    ∀ shape, motive shape
  | .leaf kind => leaf kind
  | .converted kind => converted kind
  | .composite parts => composite parts fun part (_ : part ∈ parts) => induction leaf converted composite part.2
termination_by shape => sizeOf shape
decreasing_by
  have hlt := List.sizeOf_lt_of_mem ‹part ∈ parts›
  obtain ⟨name, shape⟩ := part
  simp only [Shape.composite.sizeOf_spec, Prod.mk.sizeOf_spec] at hlt ⊢
  omega

mutual

/-- The leaves, depth first and in order of declaration. -/
def leaves : Shape → List Leaf
  | .leaf kind => [⟨[], [], kind⟩]
  | .converted kind => [⟨[], [], kind⟩]
  | .composite parts => leavesOfParts 0 parts

/-- The leaves of parts, the first of which is in the given position. -/
def leavesOfParts (position : Nat) : List (String × Shape) → List Leaf
  | [] => []
  | (name, part) :: rest => part.leaves.map (Leaf.inside position name) ++ leavesOfParts (position + 1) rest

end

/-- The part of a shape at the end of a route. -/
def at? : List Nat → Shape → Option Shape
  | [], shape => some shape
  | position :: route, .composite parts => (parts[position]?).bind fun part => at? route part.2
  | _ :: _, _ => none

theorem at?_cons_eq_some_iff {parts : List (String × Shape)} {position : Nat} {route : List Nat} {below : Shape} :
    (composite parts).at? (position :: route) = some below ↔
      ∃ part, parts[position]? = some part ∧ part.2.at? route = some below := by
  rw [at?, Option.bind_eq_some_iff]

mutual

theorem length_leaves : ∀ shape : Shape, shape.leaves.length = shape.width
  | .leaf _ => rfl
  | .converted _ => rfl
  | .composite parts => length_leavesOfParts 0 parts

theorem length_leavesOfParts (position : Nat) : ∀ parts : List (String × Shape),
    (leavesOfParts position parts).length = widthOfParts parts
  | [] => rfl
  | (_, part) :: rest => by
    rw [leavesOfParts, widthOfParts, List.length_append, List.length_map, length_leaves part,
      length_leavesOfParts (position + 1) rest]

end

theorem mem_leavesOfParts_iff {l : Leaf} : ∀ {parts : List (String × Shape)} {position : Nat},
    l ∈ leavesOfParts position parts ↔
      ∃ (i : Nat) (part : String × Shape), parts[i]? = some part ∧
        ∃ l' ∈ part.2.leaves, l = l'.inside (position + i) part.1
  | [], position => by simp [leavesOfParts]
  | (name, part) :: rest, position => by
    rw [leavesOfParts, List.mem_append, List.mem_map, mem_leavesOfParts_iff]
    constructor
    · rintro (⟨l', hl', rfl⟩ | ⟨i, part', hpart', l', hl', rfl⟩)
      · exact ⟨0, (name, part), rfl, l', hl', rfl⟩
      · exact ⟨i + 1, part', hpart', l', hl', by rw [Nat.add_right_comm, Nat.add_assoc]⟩
    · rintro ⟨i, part', hpart', l', hl', rfl⟩
      cases i with
      | zero =>
        cases hpart'
        exact .inl ⟨l', hl', rfl⟩
      | succ i => exact .inr ⟨i, part', hpart', l', hl', by rw [Nat.add_right_comm, Nat.add_assoc]⟩

theorem mem_leaves_composite_iff {l : Leaf} {parts : List (String × Shape)} :
    l ∈ (composite parts).leaves ↔
      ∃ (i : Nat) (part : String × Shape), parts[i]? = some part ∧ ∃ l' ∈ part.2.leaves, l = l'.inside i part.1 := by
  rw [leaves, mem_leavesOfParts_iff]
  simp only [Nat.zero_add]

theorem at?_of_mem_leaves {shape : Shape} {l : Leaf} (h : l ∈ shape.leaves) :
    shape.at? l.route = some (.leaf l.kind) ∨ shape.at? l.route = some (.converted l.kind) := by
  induction shape using induction generalizing l with
  | leaf kind =>
    cases List.mem_singleton.1 h
    exact .inl rfl
  | converted kind =>
    cases List.mem_singleton.1 h
    exact .inr rfl
  | composite parts ih =>
    obtain ⟨i, part, hpart, l', hl', rfl⟩ := mem_leaves_composite_iff.1 h
    refine (ih part (List.mem_of_getElem? hpart) hl').imp (fun h => ?_) fun h => ?_
    · exact at?_cons_eq_some_iff.2 ⟨part, hpart, h⟩
    · exact at?_cons_eq_some_iff.2 ⟨part, hpart, h⟩

theorem pairwise_route (shape : Shape) : shape.leaves.Pairwise fun l l' => l.route < l'.route := by
  induction shape using induction with
  | leaf kind => exact List.pairwise_singleton ..
  | converted kind => exact List.pairwise_singleton ..
  | composite parts ih =>
    rw [leaves]
    -- the parts behind the first are counted from 1
    generalize 0 = position
    induction parts generalizing position with
    | nil => exact .nil
    | cons part rest ihRest =>
      obtain ⟨name, part⟩ := part
      rw [leavesOfParts, List.pairwise_append, List.pairwise_map]
      refine ⟨?_, ihRest (fun p hp => ih p (List.mem_cons_of_mem _ hp)) (position + 1), fun l hl l' hl' => ?_⟩
      · refine (ih (name, part) List.mem_cons_self).imp fun hlt => ?_
        exact List.cons_lt_cons_iff.2 (.inr ⟨rfl, hlt⟩)
      · obtain ⟨below, -, rfl⟩ := List.mem_map.1 hl
        obtain ⟨i, part', -, below', -, rfl⟩ := mem_leavesOfParts_iff.1 hl'
        exact List.cons_lt_cons_iff.2 (.inl (by omega))

/-- What holds of every part of a shape, and of the shape. -/
def Everywhere (P : Shape → Prop) (shape : Shape) : Prop := ∀ route part, shape.at? route = some part → P part

theorem everywhere_leaf_iff {P : Shape → Prop} {kind : Kind} : (leaf kind).Everywhere P ↔ P (.leaf kind) := by
  refine ⟨fun h => h [] _ rfl, fun h route part hpart => ?_⟩
  cases route <;> cases hpart
  exact h

theorem everywhere_converted_iff {P : Shape → Prop} {kind : Kind} :
    (converted kind).Everywhere P ↔ P (.converted kind) := by
  refine ⟨fun h => h [] _ rfl, fun h route part hpart => ?_⟩
  cases route <;> cases hpart
  exact h

theorem everywhere_composite_iff {P : Shape → Prop} {parts : List (String × Shape)} :
    (composite parts).Everywhere P ↔ P (.composite parts) ∧ ∀ part ∈ parts, part.2.Everywhere P := by
  constructor
  · refine fun h => ⟨h [] _ rfl, fun part hpart route below hbelow => ?_⟩
    obtain ⟨i, hi⟩ := List.mem_iff_getElem?.1 hpart
    exact h (i :: route) below (at?_cons_eq_some_iff.2 ⟨part, hi, hbelow⟩)
  · rintro ⟨hroot, hparts⟩ route below hbelow
    cases route with
    | nil =>
      cases hbelow
      exact hroot
    | cons i route =>
      obtain ⟨part, hpart, hbelow⟩ := at?_cons_eq_some_iff.1 hbelow
      exact hparts part (List.mem_of_getElem? hpart) route below hbelow

/-! ## The fields of a schema -/

theorem fieldsOfParts_cons_eq_ok_iff {folder name : String} {seen : List String} {part : Shape}
    {rest : List (String × Shape)} {fields : List Field} :
    fieldsOfParts folder seen ((name, part) :: rest) = .ok fields ↔
      name ∉ seen ∧ ∃ here more, part.fields (folder ++ name) = .ok here ∧
        fieldsOfParts folder (name :: seen) rest = .ok more ∧ fields = here ++ more := by
  rw [fieldsOfParts]
  by_cases hseen : seen.contains name = true
  · rw [if_pos hseen]
    exact iff_of_false nofun fun h => h.1 (List.contains_iff_mem.1 hseen)
  · rw [if_neg hseen]
    have hnew : name ∉ seen := fun h => hseen (List.contains_iff_mem.2 h)
    cases hhere : part.fields (folder ++ name) with
    | error fault => simp
    | ok here => cases hmore : fieldsOfParts folder (name :: seen) rest <;> simp [hnew, eq_comm]

theorem dotted_append (folder name : String) (path : List String) :
    ".".intercalate ((folder ++ name) :: path) = folder ++ ".".intercalate (name :: path) := by
  cases path with
  | nil => rw [String.intercalate_singleton, String.intercalate_singleton]
  | cons next path => simp only [String.intercalate_cons_cons, String.append_assoc]

theorem dotted_cons (name : String) {path : List String} (h : path ≠ []) :
    ".".intercalate (name :: path) = name ++ "." ++ ".".intercalate path := by
  obtain ⟨next, path, rfl⟩ := List.exists_cons_of_ne_nil h
  exact String.intercalate_cons_cons

theorem path_ne_nil_of_mem {l : Leaf} {parts : List (String × Shape)} {position : Nat}
    (h : l ∈ leavesOfParts position parts) : l.path ≠ [] := by
  obtain ⟨i, part, -, l', -, rfl⟩ := mem_leavesOfParts_iff.1 h
  exact List.cons_ne_nil _ _

theorem fields_of_checked {name : String} {kind : Kind} {fields : List Field}
    (h : (Field.checked name kind).map ([·]) = .ok fields) : fields = [⟨name, kind⟩] := by
  unfold Field.checked at h
  split at h
  · cases h
    rfl
  · cases h

mutual

theorem fields_eq (path : String) : ∀ (shape : Shape) {fields : List Field}, shape.fields path = .ok fields →
    fields = shape.leaves.map fun l => ⟨".".intercalate (path :: l.path), l.kind⟩
  | .leaf _, _, h => fields_of_checked h
  | .converted _, _, h => fields_of_checked h
  | .composite parts, fields, h => by
    rw [fieldsOfParts_eq (path ++ ".") [] 0 parts h]
    refine List.map_congr_left fun l hl => ?_
    rw [dotted_cons path (path_ne_nil_of_mem hl), Leaf.name]

theorem fieldsOfParts_eq (folder : String) (seen : List String) (position : Nat) :
    ∀ (parts : List (String × Shape)) {fields : List Field}, fieldsOfParts folder seen parts = .ok fields →
      fields = (leavesOfParts position parts).map fun l => ⟨folder ++ l.name, l.kind⟩
  | [], fields, h => by
    cases h
    rfl
  | (name, part) :: rest, fields, h => by
    obtain ⟨-, here, more, hhere, hmore, rfl⟩ := fieldsOfParts_cons_eq_ok_iff.1 h
    rw [leavesOfParts, List.map_append, List.map_map, fields_eq _ part hhere,
      fieldsOfParts_eq folder _ (position + 1) rest hmore]
    congr 1
    refine List.map_congr_left fun l _ => ?_
    rw [dotted_append]
    rfl

end

/-- The fields that a schema has of a shape: its leaves, or the single field. -/
def columns : Shape → List Field
  | .converted kind => [⟨Schema.convertedField, kind⟩]
  | shape => shape.leaves.map Leaf.field

end Shape

namespace Schema

theorem fieldsOf_eq {shape : Shape} {fields : List Field} (h : fieldsOf shape = .ok fields) :
    fields = shape.columns := by
  unfold fieldsOf at h
  split at h
  · cases h
  · exact Shape.fields_of_checked h
  · rename_i parts
    split at h
    · cases h
    · rename_i listed hlisted
      split at h
      · cases h
      · cases h
        rw [Shape.fieldsOfParts_eq "" [] 0 parts hlisted]
        simp only [String.empty_append]
        rfl

/-- **The fields of a schema are the leaves of its shape.** -/
theorem fields_of_ofShape {typeName : String} {shape : Shape} {s : Schema} (h : ofShape typeName shape = .ok s) :
    s.typeName = typeName ∧ s.shape = shape ∧ s.fields = shape.columns := by
  unfold ofShape at h
  split at h
  · cases h
  · rename_i fields hfields
    cases h
    exact ⟨rfl, rfl, fieldsOf_eq hfields⟩

end Schema

namespace Sample

/-- A shelf stands in a hall; what would be said of the hall's light has no field. -/
def shelfShape : Shape :=
  .composite [("hall", .composite [("name", .leaf .string), ("light", .composite [])]), ("shelf", .leaf .integer)]

def shelves : Schema := ⟨"app::ShelfId", shelfShape, [⟨"hall.name", .string⟩, ⟨"shelf", .integer⟩]⟩

theorem ofShape_shelves : Schema.ofShape "app::ShelfId" shelfShape = .ok shelves := by cbv

end Sample

end EntityStore

import EntityStore.Proofs.Leaves
import EntityStore.Samples.Scalars
/-!
# Flattening

A node fits a shape (`Shape.Fits`) if it is missing, or has a value of the right kind where the shape has a field, or
one node that fits for each part.  The cells of a node that fits are its values at the leaves of the shape
(`Shape.row`).  Any other node is refused for the first place, depth first, in which it leaves the shape
(`Shape.FirstClash`), and what is said of it names the field after the leaves before that place.

`Schema.flatten_leaves` says both, and which fields a schema has.  Flattening goes over shape and node side by side, and
so does its one induction (`Shape.settles`); the leaves of a composite are listed, and counted, part by part
(`Shape.row_cons`, `Shape.leavesBefore_tail`).
-/
namespace EntityStore

variable {X : Scalars}

namespace Node

/-- The part of a node at the end of a route. -/
def at? : List Nat → Node X → Option (Node X)
  | [], node => some node
  | position :: route, .composite nodes => (nodes[position]?).bind (at? route)
  | _ :: _, _ => none

def value? : Node X → Option (Value X)
  | .value v => some v
  | _ => none

/-- The value at the end of a route; `none` where something on the way is missing. -/
def cell (node : Node X) (route : List Nat) : Option (Value X) := (node.at? route).bind value?

theorem at?_cons_eq_some_iff {nodes : List (Node X)} {position : Nat} {route : List Nat} {sub : Node X} :
    (composite nodes).at? (position :: route) = some sub ↔
      ∃ below, nodes[position]? = some below ∧ below.at? route = some sub := by
  rw [at?, Option.bind_eq_some_iff]

theorem cell_missing (route : List Nat) : (missing : Node X).cell route = none := by cases route <;> rfl

theorem cell_composite (nodes : List (Node X)) (position : Nat) (route : List Nat) :
    (composite nodes).cell (position :: route) = (nodes[position]?).bind fun node => node.cell route := by
  rw [cell, at?]
  cases nodes[position]? <;> rfl

end Node

namespace Shape

/-- A node fits a shape: it is missing, or a value of the field's kind, or a composite of as many parts that fit. -/
inductive Fits : Shape → Node X → Prop
  | missing (shape : Shape) : Fits shape .missing
  | leaf {kind : Kind} {v : Value X} (h : v.kind = kind) : Fits (.leaf kind) (.value v)
  | converted {kind : Kind} {v : Value X} (h : v.kind = kind) : Fits (.converted kind) (.value v)
  | composite {parts : List (String × Shape)} {nodes : List (Node X)} (length : parts.length = nodes.length)
      (each : ∀ (i : Nat) (part : String × Shape) (node : Node X), parts[i]? = some part → nodes[i]? = some node →
        Fits part.2 node) : Fits (.composite parts) (.composite nodes)

/-- The values of a node at the leaves of a shape. -/
def row (shape : Shape) (node : Node X) : Cells X := shape.leaves.map fun l => node.cell l.route

/-- A node does not fit a shape, whatever its parts are. -/
def Clashes : Shape → Node X → Prop
  | _, .missing => False
  | .leaf kind, .value v => v.kind ≠ kind
  | .converted kind, .value v => v.kind ≠ kind
  | .composite parts, .composite nodes => parts.length ≠ nodes.length
  | _, _ => True

/-- The part `part` of a shape and the part `sub` of a node stand in one place, and clash. -/
def ClashAt (shape : Shape) (node : Node X) (route : List Nat) (part : Shape) (sub : Node X) : Prop :=
  shape.at? route = some part ∧ node.at? route = some sub ∧ part.Clashes sub

/-- The first clash, depth first. -/
structure FirstClash (shape : Shape) (node : Node X) (route : List Nat) (part : Shape) (sub : Node X) : Prop where
  clash : shape.ClashAt node route part sub
  first : ∀ earlier < route, ∀ part' sub', ¬shape.ClashAt node earlier part' sub'

/-- How many leaves come before the end of a route. -/
def leavesBefore (shape : Shape) (route : List Nat) : Nat := shape.leaves.countP fun l => l.route < route

/-- What is found of a node that clashes with a shape and has `index` leaves before it. -/
def mismatch (index : Nat) : Shape → Node X → Mismatch
  | .leaf kind, .value v => .kind index kind v.kind
  | .converted kind, .value v => .kind index kind v.kind
  | _, _ => .shape index

/-- What is said of it, with the name of a field. -/
def fault (field : String) : Shape → Node X → SchemaFault
  | .leaf kind, .value v => .kindMismatch field kind v.kind
  | .converted kind, .value v => .kindMismatch field kind v.kind
  | _, _ => .shapeMismatch field

variable {shape part : Shape} {node sub : Node X} {route : List Nat} {name : String} {parts : List (String × Shape)}
  {nodes : List (Node X)} {position : Nat}

/-! ## Rows, part by part -/

theorem leavesOfParts_succ : ∀ (position : Nat) (parts : List (String × Shape)), leavesOfParts (position + 1) parts =
    (leavesOfParts position parts).map fun l => { l with route := l.route.modifyHead (· + 1) }
  | _, [] => rfl
  | position, (name, part) :: rest => by
    rw [leavesOfParts, leavesOfParts, List.map_append, List.map_map, leavesOfParts_succ (position + 1) rest]
    rfl

theorem route_ne_nil_of_mem {l : Leaf} (h : l ∈ leavesOfParts position parts) : l.route ≠ [] := by
  obtain ⟨i, part, -, l', -, rfl⟩ := mem_leavesOfParts_iff.1 h
  exact List.cons_ne_nil _ _

theorem row_missing (shape : Shape) : shape.row (.missing : Node X) = List.replicate shape.width none := by
  simp only [row, Node.cell_missing, List.map_const', length_leaves]

theorem row_cons : (composite ((name, part) :: parts)).row (.composite (node :: nodes)) =
    part.row node ++ (composite parts).row (.composite nodes) := by
  simp only [row, leaves, leavesOfParts, List.map_append, List.map_map]
  congr 1
  rw [leavesOfParts_succ, List.map_map]
  refine List.map_congr_left fun l hl => ?_
  obtain ⟨i, route, hroute⟩ := List.exists_cons_of_ne_nil (route_ne_nil_of_mem hl)
  simp only [Function.comp_apply, hroute, List.modifyHead_cons]
  rfl

theorem leavesBefore_nil (shape : Shape) : shape.leavesBefore [] = 0 := by
  simp [leavesBefore, List.not_lt_nil]

theorem leavesBefore_head (route : List Nat) :
    (composite ((name, part) :: parts)).leavesBefore (0 :: route) = part.leavesBefore route := by
  have hrest : (leavesOfParts 1 parts).countP (fun l => l.route < 0 :: route) = 0 := by
    rw [List.countP_eq_zero]
    intro l hl
    obtain ⟨i, part', -, l', -, rfl⟩ := mem_leavesOfParts_iff.1 hl
    simp [Leaf.inside, List.cons_lt_cons_iff]
  rw [leavesBefore, leaves, leavesOfParts, List.countP_append, hrest, Nat.add_zero, List.countP_map, leavesBefore]
  refine List.countP_congr fun l _ => ?_
  simp [Leaf.inside]

theorem leavesBefore_tail (position : Nat) (route : List Nat) :
    (composite ((name, part) :: parts)).leavesBefore ((position + 1) :: route) =
      part.leaves.length + (composite parts).leavesBefore (position :: route) := by
  rw [leavesBefore, leaves, leavesOfParts, List.countP_append, List.countP_map, leavesOfParts_succ, List.countP_map,
    leavesBefore, leaves]
  congr 1
  · rw [List.countP_eq_length]
    intro l _
    simp [Leaf.inside, List.cons_lt_cons_iff]
  · refine List.countP_congr fun l hl => ?_
    obtain ⟨i, tail, hroute⟩ := List.exists_cons_of_ne_nil (route_ne_nil_of_mem hl)
    simp [hroute, List.cons_lt_cons_iff]

/-! ## Clashes -/

theorem fits_nil : (composite []).Fits (.composite [] : Node X) := .composite rfl nofun

theorem fits_cons (hpart : part.Fits node) (hrest : (composite parts).Fits (.composite nodes)) :
    (composite ((name, part) :: parts)).Fits (.composite (node :: nodes)) := by
  cases hrest with
  | composite hlength heach =>
    refine .composite (congrArg Nat.succ hlength) fun i part' node' hpart' hnode' => ?_
    cases i with
    | zero =>
      cases hpart'
      cases hnode'
      exact hpart
    | succ i => exact heach i part' node' hpart' hnode'

theorem Fits.not_clashAt (h : shape.Fits node) : ¬shape.ClashAt node route part sub := by
  rintro ⟨hpart, hsub, hclash⟩
  induction route generalizing shape node with
  | nil =>
    cases hpart
    cases hsub
    cases h with
    | missing => cases part <;> exact hclash
    | leaf hkind => exact hclash hkind
    | converted hkind => exact hclash hkind
    | composite hlength => exact hclash hlength
  | cons position route ih =>
    cases h with
    | missing => cases hsub
    | leaf => cases hsub
    | converted => cases hsub
    | composite _ heach =>
      obtain ⟨part', hpart', hpart⟩ := at?_cons_eq_some_iff.1 hpart
      obtain ⟨node', hnode', hsub⟩ := Node.at?_cons_eq_some_iff.1 hsub
      exact ih (heach position part' node' hpart' hnode') hpart hsub

theorem not_clashAt_root (hlength : parts.length = nodes.length) :
    ¬(composite parts).ClashAt (.composite nodes) [] part sub := by
  rintro ⟨hpart, hsub, hclash⟩
  cases hpart
  cases hsub
  exact hclash hlength

theorem firstClash_root (h : shape.Clashes node) : shape.FirstClash node [] shape node :=
  ⟨⟨rfl, rfl, h⟩, fun earlier hlt => absurd hlt (List.not_lt_nil earlier)⟩

theorem FirstClash.head (hlength : ((name, part) :: parts).length = (node :: nodes).length)
    (h : part.FirstClash node route shape sub) :
    (composite ((name, part) :: parts)).FirstClash (.composite (node :: nodes)) (0 :: route) shape sub where
  clash := h.clash
  first earlier hlt part' sub' hclash := by
    cases earlier with
    | nil => exact not_clashAt_root hlength hclash
    | cons i earlier =>
      obtain hi | ⟨rfl, hbefore⟩ := List.cons_lt_cons_iff.1 hlt
      · exact Nat.not_lt_zero i hi
      · exact h.first earlier hbefore part' sub' hclash

theorem FirstClash.tail (hlength : ((name, part) :: parts).length = (node :: nodes).length) (hpart : part.Fits node)
    (h : (composite parts).FirstClash (.composite nodes) (position :: route) shape sub) :
    (composite ((name, part) :: parts)).FirstClash (.composite (node :: nodes)) ((position + 1) :: route) shape
      sub where
  clash := h.clash
  first earlier hlt part' sub' hclash := by
    cases earlier with
    | nil => exact not_clashAt_root hlength hclash
    | cons i earlier =>
      cases i with
      | zero => exact hpart.not_clashAt hclash
      | succ i =>
        refine h.first (i :: earlier) ?_ part' sub' hclash
        simpa [List.cons_lt_cons_iff] using hlt

/-! ## What flattening answers -/

/-- A node with `index` leaves before it is answered with its row if it fits, and otherwise with its first clash. -/
def Settles (index : Nat) (shape : Shape) (node : Node X) (answer : Except Mismatch (Cells X)) : Prop :=
  (shape.Fits node ∧ answer = .ok (shape.row node)) ∨
    ∃ route part sub, shape.FirstClash node route part sub ∧
      answer = .error (part.mismatch (index + shape.leavesBefore route) sub)

theorem settles_clash (index : Nat) (h : shape.Clashes node) :
    Settles index shape node (.error (shape.mismatch index node)) :=
  .inr ⟨[], shape, node, firstClash_root h, by rw [leavesBefore_nil, Nat.add_zero]⟩

theorem settles_leaf (index : Nat) (kind : Kind) (node : Node X) :
    Settles index (.leaf kind) node (flattenLeaf index kind node) := by
  cases node with
  | missing => exact .inl ⟨.missing _, rfl⟩
  | value v =>
    by_cases hkind : v.kind = kind
    · exact .inl ⟨.leaf hkind, if_pos hkind⟩
    · rw [flattenLeaf, if_neg hkind]
      exact settles_clash index hkind
  | composite nodes => exact settles_clash index trivial

theorem settles_converted (index : Nat) (kind : Kind) (node : Node X) :
    Settles index (.converted kind) node (flattenLeaf index kind node) := by
  cases node with
  | missing => exact .inl ⟨.missing _, rfl⟩
  | value v =>
    by_cases hkind : v.kind = kind
    · exact .inl ⟨.converted hkind, if_pos hkind⟩
    · rw [flattenLeaf, if_neg hkind]
      exact settles_clash index hkind
  | composite nodes => exact settles_clash index trivial

mutual

/-- **Flattening answers with the row of a node that fits, and with the first clash of any other.** -/
theorem settles (index : Nat) : ∀ (shape : Shape) (node : Node X), Settles index shape node (shape.flatten index node)
  | .leaf kind, node => settles_leaf index kind node
  | .converted kind, node => settles_converted index kind node
  | .composite parts, .missing => .inl ⟨.missing _, by rw [row_missing]; rfl⟩
  | .composite _, .value _ => settles_clash index trivial
  | .composite parts, .composite nodes => by
    rw [flatten]
    by_cases hlength : parts.length = nodes.length
    · rw [if_pos hlength]
      exact (settlesParts index parts nodes hlength).imp id
        fun ⟨position, route, part, sub, h⟩ => ⟨position :: route, part, sub, h⟩
    · rw [if_neg hlength]
      exact settles_clash index hlength

theorem settlesParts (index : Nat) : ∀ (parts : List (String × Shape)) (nodes : List (Node X)),
    parts.length = nodes.length →
    ((composite parts).Fits (.composite nodes) ∧
        flattenParts index parts nodes = .ok ((composite parts).row (.composite nodes))) ∨
      ∃ position route part sub, (composite parts).FirstClash (.composite nodes) (position :: route) part sub ∧
        flattenParts index parts nodes =
          .error (part.mismatch (index + (composite parts).leavesBefore (position :: route)) sub)
  | [], [], _ => .inl ⟨fits_nil, rfl⟩
  | (_, part) :: parts, node :: nodes, hlength => by
    rw [flattenParts]
    obtain ⟨hfits, hhere⟩ | ⟨route, below, sub, hfirst, hhere⟩ := settles index part node
    · rw [hhere]
      dsimp only
      obtain ⟨hfits', hmore⟩ | ⟨position, route, below, sub, hfirst, hmore⟩ :=
        settlesParts (index + (part.row node).length) parts nodes (Nat.succ.inj hlength)
      · refine .inl ⟨fits_cons hfits hfits', ?_⟩
        rw [hmore, row_cons]
      · refine .inr ⟨position + 1, route, below, sub, hfirst.tail hlength hfits, ?_⟩
        -- the leaves of the part that fits come before the place
        rw [hmore, leavesBefore_tail, row, List.length_map, Nat.add_assoc]
    · rw [hhere]
      exact .inr ⟨0, route, below, sub, hfirst.head hlength, by rw [leavesBefore_head]⟩

end

theorem Fits.kind_eq (h : shape.Fits node) {l : Leaf} (hl : l ∈ shape.leaves) {v : Value X}
    (hv : node.cell l.route = some v) : v.kind = l.kind := by
  obtain ⟨sub, hsub, hvalue⟩ := Option.bind_eq_some_iff.1 hv
  cases sub with
  | missing => cases hvalue
  | composite nodes => cases hvalue
  | value w =>
    cases hvalue
    by_contra hne
    rcases at?_of_mem_leaves hl with hpart | hpart
    · exact h.not_clashAt ⟨hpart, hsub, hne⟩
    · exact h.not_clashAt ⟨hpart, hsub, hne⟩

theorem map_kind_columns (shape : Shape) : shape.columns.map Field.kind = shape.leaves.map Leaf.kind := by
  cases shape with
  | leaf kind => rfl
  | converted kind => rfl
  | composite parts => exact List.map_map

theorem length_columns (shape : Shape) : shape.columns.length = shape.leaves.length := by
  simpa only [List.length_map] using congrArg List.length shape.map_kind_columns

theorem Fits.kind_row (h : shape.Fits node) {i : Nat} {v : Value X} (hv : (shape.row node)[i]? = some (some v)) :
    ∃ field, shape.columns[i]? = some field ∧ v.kind = field.kind := by
  rw [row, List.getElem?_map, Option.map_eq_some_iff] at hv
  obtain ⟨l, hl, hcell⟩ := hv
  have hkind : (shape.columns.map Field.kind)[i]? = some l.kind := by
    rw [map_kind_columns, List.getElem?_map, hl, Option.map_some]
  rw [List.getElem?_map, Option.map_eq_some_iff] at hkind
  obtain ⟨field, hfield, heq⟩ := hkind
  exact ⟨field, hfield, (h.kind_eq (List.mem_of_getElem? hl) hcell).trans heq.symm⟩

end Shape

namespace Schema

variable {typeName : String} {shape : Shape} {s : Schema} {node : Node X}

theorem faultOf_mismatch (s : Schema) (index : Nat) (part : Shape) (sub : Node X) :
    s.faultOf (part.mismatch index sub) = part.fault (s.nameAt index) sub := by
  cases part <;> cases sub <;> rfl

theorem flatten_eq_ok_iff (h : ofShape typeName shape = .ok s) {cells : Cells X} :
    s.flatten node = .ok cells ↔ shape.Fits node ∧ cells = shape.row node := by
  obtain ⟨-, rfl, -⟩ := fields_of_ofShape h
  unfold flatten
  obtain ⟨hfits, heq⟩ | ⟨route, part, sub, hfirst, heq⟩ := Shape.settles 0 s.shape node
  · simp [heq, hfits, eq_comm]
  · rw [heq]
    exact iff_of_false nofun fun hfits => hfits.1.not_clashAt hfirst.clash

/-- **A flat form has one cell for each field.** -/
theorem length_of_flatten (h : ofShape typeName shape = .ok s) {cells : Cells X} (hcells : s.flatten node = .ok cells) :
    cells.length = s.width := by
  obtain ⟨-, rfl⟩ := (flatten_eq_ok_iff h).1 hcells
  rw [width, (fields_of_ofShape h).2.2, Shape.row, List.length_map, Shape.length_columns]

/-- **A schema lists the leaves of its shape, and so does a flat form.**  The nodes that fit the shape have a flat form,
and no others: the values at the leaves, each of the kind of its field.  Of any other node, what is said is that it
clashes with the shape, and of the first clash, depth first, the field is named that stands behind the leaves before. -/
theorem flatten_leaves (h : ofShape typeName shape = .ok s) :
    s.fields = shape.columns ∧
    ∀ node : Node X, ((∃ cells, s.flatten node = .ok cells) ↔ shape.Fits node) ∧
      (∀ cells, s.flatten node = .ok cells → cells = shape.row node ∧ cells.length = s.fields.length ∧
        ∀ (i : Nat) (v : Value X), cells[i]? = some (some v) →
          ∃ field, s.fields[i]? = some field ∧ v.kind = field.kind) ∧
      ∀ e, s.flatten node = .error e → ∃ route part sub, shape.FirstClash node route part sub ∧
        e = .invalidSchema typeName
          (part.fault (((s.fields[shape.leavesBefore route]?).map Field.name).getD "<end>") sub).message := by
  obtain ⟨rfl, rfl, hfields⟩ := fields_of_ofShape h
  refine ⟨hfields, fun node => ⟨?_, fun cells hcells => ?_, fun e he => ?_⟩⟩
  · simp [flatten_eq_ok_iff h]
  · obtain ⟨hfits, hrow⟩ := (flatten_eq_ok_iff h).1 hcells
    refine ⟨hrow, length_of_flatten h hcells, fun i v hv => ?_⟩
    rw [hrow] at hv
    rw [hfields]
    exact hfits.kind_row hv
  · unfold flatten at he
    obtain ⟨-, heq⟩ | ⟨route, part, sub, hfirst, heq⟩ := Shape.settles 0 s.shape node
    · rw [heq] at he
      cases he
    · rw [heq, Nat.zero_add] at he
      cases he
      exact ⟨route, part, sub, hfirst, by rw [faultOf_mismatch, nameAt]⟩

end Schema

namespace Sample

/-- A shelf in a hall that is not known. -/
def astray : Node scalars := .composite [.missing, .value (.integer 3)]

/-- A shelf with a word in the place of its number. -/
def misnumbered : Node scalars := .composite [.composite [.value (.string "north"), .missing], .value (.string "three")]

end Sample

open Sample in
theorem Schema.flatten_leaves_shelves :
    ofShape "app::ShelfId" shelfShape = .ok shelves ∧ shelves.fields = shelfShape.columns ∧
      (∃ cells, shelves.flatten astray = .ok cells ∧ cells = [none, some (.integer 3)]) ∧
      ∃ e, shelves.flatten misnumbered = .error e ∧ ∃ route part sub,
        shelfShape.FirstClash misnumbered route part sub ∧ e = .invalidSchema "app::ShelfId" (part.fault
          (((shelves.fields[shelfShape.leavesBefore route]?).map Field.name).getD "<end>") sub).message := by
  obtain ⟨hfields, hnodes⟩ := Schema.flatten_leaves ofShape_shelves
  have hfits : shelfShape.Fits astray := Shape.fits_cons (.missing _) (Shape.fits_cons (.leaf rfl) Shape.fits_nil)
  obtain ⟨cells, hcells⟩ := (hnodes astray).1.2 hfits
  obtain ⟨hrow, -⟩ := (hnodes astray).2.1 cells hcells
  have herror : shelves.flatten misnumbered =
      .error (.invalidSchema "app::ShelfId" (SchemaFault.kindMismatch "shelf" .integer .string).message) := rfl
  exact ⟨ofShape_shelves, hfields, ⟨cells, hcells, hrow⟩, _, herror, (hnodes misnumbered).2.2 _ herror⟩

end EntityStore

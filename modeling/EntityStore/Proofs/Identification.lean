import EntityStore.Proofs.Flattening
import EntityStore.Proofs.Contiguity
import EntityStore.Proofs.Sightings
import EntityStore.Samples.Host
/-!
# What a complete flat form identifies

A part of a shape without leaves has no cell, so that a flat form does not show whether the part is missing.  Nothing
else is lost: complete flat forms are the same just if the nodes are the same once such parts are left out
(`Shape.trim`).  Where every part has a leaf, a complete flat form identifies the node, and rows kept under flat forms
tell apart what a cache keeps under identifiers (`Schema.flatten_identifies`).
-/
namespace EntityStore

variable {X : Scalars}

theorem Node.eq_of_cell_root {n m : Node X} (h : n.cell [] = m.cell []) (hvalue : n.cell [] ≠ none) : n = m := by
  cases n <;> cases m <;> simp_all [cell, at?, value?]

theorem Node.cell_inside {nodes : List (Node X)} {i : Nat} {node : Node X} (h : nodes[i]? = some node) (name : String)
    (l : Leaf) : (composite nodes).cell (l.inside i name).route = node.cell l.route := by
  rw [Leaf.inside, cell_composite, h, Option.bind_some]

namespace Shape

mutual

/-- A node with every part left out that has no leaf. -/
def trim : Shape → Node X → Node X
  | .composite parts, .composite nodes =>
    if widthOfParts parts = 0 then .missing else .composite (trimParts parts nodes)
  | .composite _, node => node
  | .leaf _, node => node
  | .converted _, node => node

def trimParts : List (String × Shape) → List (Node X) → List (Node X)
  | (_, part) :: parts, node :: nodes => part.trim node :: trimParts parts nodes
  | _, _ => []

end

/-- There is a field in the shape. -/
def HasLeaf (shape : Shape) : Prop := shape.leaves ≠ []

variable {shape : Shape} {node n m : Node X} {parts : List (String × Shape)} {nodes : List (Node X)}

theorem hasLeaf_composite_iff : (composite parts).HasLeaf ↔ widthOfParts parts ≠ 0 := by
  rw [HasLeaf, leaves, ← length_leavesOfParts 0 parts, ne_eq, ne_eq, List.length_eq_zero_iff]

theorem getElem?_trimParts : ∀ (parts : List (String × Shape)) (nodes : List (Node X)) (i : Nat),
    (trimParts parts nodes)[i]? = (parts[i]?).bind fun part => (nodes[i]?).map part.2.trim
  | [], nodes, i => by simp [trimParts]
  | (_, part) :: parts, [], i => by cases i <;> simp [trimParts]
  | (_, part) :: parts, node :: nodes, i => by
    rw [trimParts]
    cases i with
    | zero => rfl
    | succ i => simpa only [List.getElem?_cons_succ] using getElem?_trimParts parts nodes i

theorem trim_of_not_hasLeaf (h : ¬(composite parts).HasLeaf) (hfits : (composite parts).Fits node) :
    (composite parts).trim node = .missing := by
  cases hfits with
  | missing => rw [trim]; exact nofun
  | composite => rw [trim, if_pos (Decidable.not_not.1 (mt hasLeaf_composite_iff.2 h))]

theorem trim_of_hasLeaf (h : (composite parts).HasLeaf) :
    (composite parts).trim (.composite nodes) = .composite (trimParts parts nodes) := by
  rw [trim, if_neg (hasLeaf_composite_iff.1 h)]

theorem Fits.exists_nodes (h : (Shape.composite parts).Fits node) {route : List Nat} (hcell : node.cell route ≠ none) :
    ∃ nodes, node = .composite nodes := by
  cases h with
  | missing => exact absurd (Node.cell_missing route) hcell
  | composite => exact ⟨_, rfl⟩

theorem Fits.exists_getElem? (h : (Shape.composite parts).Fits (.composite nodes)) {i : Nat} {part : String × Shape}
    (hpart : parts[i]? = some part) : ∃ node, nodes[i]? = some node ∧ part.2.Fits node := by
  cases h with
  | composite hlength heach =>
    have hi := (List.getElem?_eq_some_iff.1 hpart).1
    have hnode := List.getElem?_eq_getElem (hlength ▸ hi : i < nodes.length)
    exact ⟨nodes[i], hnode, heach i part _ hpart hnode⟩

theorem cell_trim (h : shape.Fits node) {l : Leaf} (hl : l ∈ shape.leaves) :
    (shape.trim node).cell l.route = node.cell l.route := by
  induction shape using induction generalizing node l with
  | leaf kind => rw [trim]
  | converted kind => rw [trim]
  | composite parts ih =>
    cases node with
    | missing => rw [trim]; exact nofun
    | value v => rw [trim]; exact nofun
    | composite nodes =>
      obtain ⟨i, part, hpart, below, hbelow, rfl⟩ := mem_leaves_composite_iff.1 hl
      obtain ⟨node, hnode, hfits⟩ := h.exists_getElem? hpart
      rw [trim_of_hasLeaf (List.ne_nil_of_mem hl), Leaf.inside, Node.cell_composite, Node.cell_composite,
        getElem?_trimParts, hpart, hnode]
      exact ih part (List.mem_of_getElem? hpart) hfits hbelow

/-- **What is complete is its leaves**: nodes with the same value at every leaf are the same, parts without leaves
left out. -/
theorem trim_eq_of_cells (hn : shape.Fits n) (hm : shape.Fits m)
    (hsame : ∀ l ∈ shape.leaves, n.cell l.route = m.cell l.route)
    (hcomplete : ∀ l ∈ shape.leaves, n.cell l.route ≠ none) : shape.trim n = shape.trim m := by
  induction shape using induction generalizing n m with
  | leaf kind =>
    have hroot := List.mem_singleton_self (⟨[], [], kind⟩ : Leaf)
    rw [Node.eq_of_cell_root (hsame _ hroot) (hcomplete _ hroot)]
  | converted kind =>
    have hroot := List.mem_singleton_self (⟨[], [], kind⟩ : Leaf)
    rw [Node.eq_of_cell_root (hsame _ hroot) (hcomplete _ hroot)]
  | composite parts ih =>
    by_cases hleaf : (Shape.composite parts).HasLeaf
    · -- a value somewhere below shows that neither node is missing
      obtain ⟨l, hl⟩ := List.exists_mem_of_ne_nil _ hleaf
      have hcell := hcomplete l hl
      obtain ⟨nodes, rfl⟩ := hn.exists_nodes hcell
      obtain ⟨nodes', rfl⟩ := hm.exists_nodes (hsame l hl ▸ hcell)
      rw [trim_of_hasLeaf hleaf, trim_of_hasLeaf hleaf]
      refine congrArg _ (List.ext_getElem? fun i => ?_)
      rw [getElem?_trimParts, getElem?_trimParts]
      cases hpart : parts[i]? with
      | none => rfl
      | some part =>
        obtain ⟨node, hnode, hfits⟩ := hn.exists_getElem? hpart
        obtain ⟨node', hnode', hfits'⟩ := hm.exists_getElem? hpart
        have hinside (below : Leaf) (h : below ∈ part.2.leaves) :
            below.inside i part.1 ∈ (Shape.composite parts).leaves :=
          mem_leaves_composite_iff.2 ⟨i, part, hpart, below, h, rfl⟩
        have hmem := List.mem_of_getElem? hpart
        rw [hnode, hnode', Option.bind_some, Option.bind_some, Option.map_some, Option.map_some]
        refine congrArg some (ih part hmem hfits hfits' (fun below hbelow => ?_) fun below hbelow => ?_)
        · rw [← Node.cell_inside hnode part.1, ← Node.cell_inside hnode' part.1]
          exact hsame _ (hinside below hbelow)
        · rw [← Node.cell_inside hnode part.1]
          exact hcomplete _ (hinside below hbelow)
    · rw [trim_of_not_hasLeaf hleaf hn, trim_of_not_hasLeaf hleaf hm]

theorem trim_eq_self (h : shape.Everywhere HasLeaf) (hfits : shape.Fits node) : shape.trim node = node := by
  induction shape using induction generalizing node with
  | leaf kind => rw [trim]
  | converted kind => rw [trim]
  | composite parts ih =>
    obtain ⟨hleaf, hparts⟩ := everywhere_composite_iff.1 h
    cases node with
    | missing => rw [trim]; exact nofun
    | value v => rw [trim]; exact nofun
    | composite nodes =>
      rw [trim_of_hasLeaf hleaf]
      refine congrArg _ (List.ext_getElem? fun i => ?_)
      rw [getElem?_trimParts]
      cases hpart : parts[i]? with
      | none =>
        cases hfits with
        | composite hlength _ =>
          exact (List.getElem?_eq_none_iff.2 (hlength ▸ List.getElem?_eq_none_iff.1 hpart)).symm
      | some part =>
        obtain ⟨node, hnode, hnodeFits⟩ := hfits.exists_getElem? hpart
        have hmem := List.mem_of_getElem? hpart
        rw [hnode, Option.bind_some, Option.map_some, ih part hmem (hparts part hmem) hnodeFits]

/-- **Complete rows are the same just if the nodes are, parts without leaves left out.** -/
theorem row_eq_iff (hn : shape.Fits n) (hm : shape.Fits m) (hcomplete : none ∉ shape.row n) :
    shape.row n = shape.row m ↔ shape.trim n = shape.trim m := by
  constructor
  · intro hrow
    refine trim_eq_of_cells hn hm (fun l hl => List.map_inj_left.1 hrow l hl) fun l hl hcell => hcomplete ?_
    exact List.mem_map.2 ⟨l, hl, hcell⟩
  · intro htrim
    refine List.map_congr_left fun l hl => ?_
    rw [← cell_trim hn hl, ← cell_trim hm hl, htrim]

end Shape

namespace Schema

/-- **A complete flat form identifies what has a field.**  Complete flat forms are the same just if the nodes are, the
parts without leaves left out.  If every part of the shape has a leaf, nodes with one complete flat form are the same;
then an entity type whose identifiers show different nodes has no two of them under one complete key. -/
theorem flatten_identifies {typeName : String} {shape : Shape} {s : Schema} (h : ofShape typeName shape = .ok s) :
    (∀ (n m : Node X) c d, s.flatten n = .ok c → s.flatten m = .ok d → none ∉ c →
      (c = d ↔ shape.trim n = shape.trim m)) ∧
    (shape.Everywhere Shape.HasLeaf →
      (∀ (n m : Node X) c, s.flatten n = .ok c → s.flatten m = .ok c → none ∉ c → n = m) ∧
      ∀ E : EntityType X, E.schema = .ok s → Function.Injective E.node → E.TellsApart) := by
  have hkey : ∀ (n m : Node X) c d, s.flatten n = .ok c → s.flatten m = .ok d → none ∉ c →
      (c = d ↔ shape.trim n = shape.trim m) := by
    intro n m c d hn hm hc
    obtain ⟨hfits, rfl⟩ := (flatten_eq_ok_iff h).1 hn
    obtain ⟨hfits', rfl⟩ := (flatten_eq_ok_iff h).1 hm
    exact Shape.row_eq_iff hfits hfits' hc
  refine ⟨hkey, fun hleaf => ?_⟩
  have hone : ∀ (n m : Node X) c, s.flatten n = .ok c → s.flatten m = .ok c → none ∉ c → n = m := by
    intro n m c hn hm hc
    have htrim := (hkey n m c c hn hm hc).1 rfl
    rwa [Shape.trim_eq_self hleaf ((flatten_eq_ok_iff h).1 hn).1,
      Shape.trim_eq_self hleaf ((flatten_eq_ok_iff h).1 hm).1] at htrim
  refine ⟨hone, fun E hschema hnode id id' c hid hid' hcomplete => hnode (hone _ _ c ?_ ?_ ?_)⟩
  · rwa [EntityType.flatten_of_schema hschema] at hid
  · rwa [EntityType.flatten_of_schema hschema] at hid'
  · rw [← Cells.isPartial_iff, hcomplete]
    exact Bool.false_ne_true

end Schema

theorem Node.eq_of_ofOption_map {α : Type} {f : α → Value X} (hf : Function.Injective f) {a b : Option α}
    (h : ofOption (a.map f) = ofOption (b.map f)) : a = b := by
  cases a <;> cases b <;> simp_all [ofOption, hf.eq_iff]

theorem HostId.node_injective : Function.Injective HostId.node := by
  rintro ⟨region, host, seen, raw, up⟩ ⟨region', host', seen', raw', up'⟩ h
  simp only [node, Node.composite.injEq, List.cons.injEq] at h
  obtain ⟨hregion, hhost, hseen, hraw, hup, -⟩ := h
  obtain rfl := Node.eq_of_ofOption_map (fun _ _ => Value.uuid.inj) hhost
  obtain rfl := Node.eq_of_ofOption_map (fun _ _ => Value.timestamp.inj) hseen
  obtain rfl := Node.eq_of_ofOption_map (fun _ _ => Value.bytes.inj) hraw
  obtain rfl := Node.eq_of_ofOption_map (fun _ _ => Value.boolean.inj) hup
  cases region with
  | none =>
    cases region' with
    | none => rfl
    | some r' => cases hregion
  | some r =>
    cases region' with
    | none => cases hregion
    | some r' =>
      simp only [Node.composite.injEq, List.cons.injEq] at hregion
      obtain ⟨zone, rack⟩ := r
      obtain ⟨zone', rack'⟩ := r'
      obtain rfl := Node.eq_of_ofOption_map (fun _ _ => Value.string.inj) hregion.1
      obtain rfl := Node.eq_of_ofOption_map (fun _ _ => Value.integer.inj) hregion.2.1
      rfl

theorem Schema.flatten_identifies_hosts :
    ∃ s, ofShape "app::HostId" HostId.shape = .ok s ∧ HostId.shape.Everywhere Shape.HasLeaf ∧
      (Host.type "app").schema = .ok s ∧ Function.Injective (Host.type "app").node ∧ (Host.type "app").TellsApart := by
  have hleaf : HostId.shape.Everywhere Shape.HasLeaf := by
    simp [HostId.shape, Shape.everywhere_composite_iff, Shape.everywhere_leaf_iff, Shape.everywhere_converted_iff,
      Shape.HasLeaf, Shape.leaves, Shape.leavesOfParts]
  obtain ⟨s, hs⟩ : ∃ s, ofShape "app::HostId" HostId.shape = .ok s := ⟨_, rfl⟩
  exact ⟨s, hs, hleaf, hs, HostId.node_injective,
    ((Schema.flatten_identifies hs).2 hleaf).2 (Host.type "app") hs HostId.node_injective⟩

open Sample in
/-- A part without leaves may be missing or not, and the complete flat form is the same. -/
theorem Schema.leafless_part_unread : ofShape "app::ShelfId" shelfShape = .ok shelves ∧ ∃ n m : Node scalars, ∃ c,
    shelves.flatten n = .ok c ∧ shelves.flatten m = .ok c ∧ none ∉ c ∧ n ≠ m := by
  refine ⟨ofShape_shelves, .composite [.composite [.value (.string "north"), .missing], .value (.integer 3)],
    .composite [.composite [.value (.string "north"), .composite []], .value (.integer 3)],
    [some (.string "north"), some (.integer 3)], rfl, rfl, by decide, by decide⟩

end EntityStore

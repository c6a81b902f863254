import CodeTree.Proofs.Ancestry
import CodeTree.Proofs.OwnerScan
import Mathlib.Algebra.BigOperators.Group.List.Basic
import Mathlib.Algebra.Ring.Nat

/-!
# What validation decides

An array of nodes is coherent when each node says what it may and each but the root is owned by
its parent, once, and by no other node. This is said here of the whole array, with nothing counted
in passing and nothing said of the order of the checks. Validation decides it (`validate_decides`):
the counters tell how often a node is owned by all nodes together, and since whatever is owned
points back to its owner, that is how often it is owned by its parent.
-/

namespace CodeTree

variable {tree : Tree}

/-- What a node of a coherent tree may say of itself, its children and its slots. -/
structure Node.Coherent (node : Node tree) : Prop where
  language : ∀ language, node.kind.language? = some language → language = tree.language
  ordered : node.span.start ≤ node.span.stop
  within : node.span.stop ≤ tree.source.utf8ByteSize
  start_valid : String.Pos.Raw.IsValid tree.source ⟨node.span.start⟩
  stop_valid : String.Pos.Raw.IsValid tree.source ⟨node.span.stop⟩
  terminal : node.kind.isTerminal = true → node.data.children = [] ∧ node.data.slots = []
  children : ∃ (children : List (Node tree)) (stop : Nat),
    children.map (·.id) = node.data.children ∧
    Consecutive node.span.start (children.map (·.span)) stop ∧
    (node.kind.isTerminal = false → stop = node.span.stop)
  slots_length : node.data.slots.length = node.kind.slots.length
  slots : ∀ (position : Nat) (decl : SlotDecl) (ids : List NodeId),
    node.kind.slots[position]? = some decl → node.data.slots[position]? = some ids →
      decl.arity.accepts ids.length = true ∧ ∀ id ∈ ids,
        if decl.slot = .alternatives ∧ node.kind = .special .variationPoint then
          ∃ held : Node tree, held.id = id ∧ held.data.parent = some node.id ∧
            node.span.start ≤ held.span.start ∧ held.span.stop ≤ node.span.stop
        else id ∈ node.data.children

/-- Whether an array of nodes is a tree, apart from nodes that are not reached from the root. -/
structure Tree.Coherent (tree : Tree) : Prop where
  size_pos : 0 < tree.nodes.size
  size_lt : tree.nodes.size < 2 ^ 32
  root : ∀ root : Node tree, root.id = 0 →
    root.data.parent = none ∧ root.span = ⟨0, tree.source.utf8ByteSize⟩ ∧
    ∀ other : Node tree, root.id ∉ other.data.owned
  node : ∀ node : Node tree, node.Coherent
  owned_once : ∀ node : Node tree, node.id ≠ 0 →
    ∃ parent : Node tree, node.data.parent = some parent.id ∧
      ∀ other : Node tree, other.data.owned.count node.id = if other = parent then 1 else 0

namespace Tree

open Node

theorem count_owned (tree : Tree) (id : NodeId) :
    tree.owned.count id = (tree.allNodes.map fun node => node.data.owned.count id).sum := by
  rw [owned, ← map_data_allNodes, List.flatMap_map, List.count_flatMap]
  rfl

theorem nodup_allNodes (tree : Tree) : tree.allNodes.Nodup :=
  (List.nodup_finRange _).map fun _ _ hab => Fin.ext (congrArg Node.id hab)

theorem holdsAlternatives_iff {kind : NodeKind} {slot : Slot} :
    NodeData.holdsAlternatives kind slot = true ↔
      slot = .alternatives ∧ kind = .special .variationPoint := by
  simp [NodeData.holdsAlternatives]

theorem Valid.coherent_node (h : tree.Valid) (node : Node tree) : node.Coherent := by
  have hsound := h.nodeSound node
  obtain ⟨hordered, hstart, hstop⟩ := Utf8.isRange_iff.1 hsound.range
  obtain ⟨stop, hchained, hend⟩ := hsound.children
  obtain ⟨children, -, hids, -, hspans⟩ := hchained.exists_nodes h
  refine ⟨hsound.language, hordered, ?_, Utf8.isBoundary_toList_iff.1 hstart,
    Utf8.isBoundary_toList_iff.1 hstop, hsound.leaf, ⟨children, stop, hids, hspans, hend⟩,
    hsound.slots_length, fun position decl ids hdecl hids => ?_⟩
  · rw [← Utf8.size_toList]
    exact Utf8.le_size_of_isBoundary hstop
  · have hslot := hsound.slots decl ids
      (List.mem_of_getElem? (List.getElem?_zip_eq_some.2 ⟨hdecl, hids⟩))
    refine ⟨hslot.arity, fun id hm => ?_⟩
    obtain ⟨data, hdata, hparent, hplace⟩ := hslot.held id hm
    obtain ⟨hlt, rfl⟩ := Array.getElem?_eq_some_iff.1 hdata
    simp only [holdsAlternatives_iff] at hplace
    split
    · next halternative =>
      exact ⟨⟨id, hlt⟩, rfl, hparent, Eq.mp (if_pos halternative) hplace⟩
    · next hchild => exact Eq.mp (if_neg hchild) hplace

/-- A node is owned by its parent, once, and by no other node. -/
theorem Valid.count_owned_eq (h : tree.Valid) {node parent : Node tree}
    (hp : node.HasParent parent) (other : Node tree) :
    other.data.owned.count node.id = if other = parent then 1 else 0 := by
  split
  · next heq =>
    rw [heq]
    exact List.count_eq_one_of_mem (h.nodup_owned parent) (h.owns_iff.2 hp)
  · next hne =>
    exact List.count_eq_zero_of_not_mem fun ho => hne ((h.owns_iff.1 ho).unique hp)

theorem Valid.coherent (h : tree.Valid) : tree.Coherent := by
  obtain ⟨hsize, ⟨data, hdata, -, hspan⟩, -, -⟩ := valid_iff.1 h
  obtain ⟨hpos, rfl⟩ := Array.getElem?_eq_some_iff.1 hdata
  refine ⟨hpos, Nat.lt_succ_of_le hsize, fun root hroot => ⟨h.parent_of_root hroot, ?_, ?_⟩,
    h.coherent_node, fun node hne => ?_⟩
  · obtain rfl : root = ⟨NodeId.root, hpos⟩ := node_ext hroot
    exact hspan
  · exact fun other ho => h.id_ne_root_of_hasParent (h.owns_iff.1 ho) hroot
  · obtain ⟨parent, hp⟩ := h.exists_parent hne
    exact ⟨parent, hasParent_iff.1 hp, h.count_owned_eq hp⟩

namespace Coherent

variable {node : Node tree}

theorem parent_of_owned (h : tree.Coherent) {held : Node tree}
    (hm : held.id ∈ node.data.owned) : held.data.parent = some node.id := by
  have hne : held.id ≠ 0 := fun hroot => (h.root held hroot).2.2 node hm
  obtain ⟨parent, hparent, hcount⟩ := h.owned_once held hne
  have hpos := List.count_pos_iff.2 hm
  rw [hcount node] at hpos
  split at hpos
  · next heq => rwa [heq]
  · cases hpos

theorem chained (h : tree.Coherent) {children : List (Node tree)} {start stop : Nat}
    (hm : ∀ child ∈ children, child.id ∈ node.data.owned)
    (hc : Consecutive start (children.map (·.span)) stop) :
    tree.Chained node.id start (children.map (·.id)) stop := by
  induction children generalizing start with
  | nil => exact hc
  | cons child rest ih =>
    obtain ⟨hchild, hrest⟩ := List.forall_mem_cons.1 hm
    obtain ⟨hstart, -, hafter⟩ := hc
    exact ⟨child.data, getElem?_eq_data child, h.parent_of_owned hchild, hstart, ih hrest hafter⟩

theorem slotSound (h : tree.Coherent) {decl : SlotDecl} {ids : List NodeId}
    (hm : (decl, ids) ∈ node.data.kind.slots.zip node.data.slots) :
    tree.SlotSound node.id node.data decl ids := by
  obtain ⟨position, hposition⟩ := List.mem_iff_getElem?.1 hm
  obtain ⟨hdecl, hids⟩ := List.getElem?_zip_eq_some.1 hposition
  obtain ⟨harity, hheld⟩ := (h.node node).slots position decl ids hdecl hids
  refine ⟨harity, fun id hid => ?_⟩
  have hplace := hheld id hid
  simp only [holdsAlternatives_iff]
  split at hplace
  · next halternative =>
    obtain ⟨held, rfl, hparent, hinside⟩ := hplace
    exact ⟨held.data, getElem?_eq_data held, hparent, Eq.mpr (if_pos halternative) hinside⟩
  · next hchild =>
    obtain ⟨children, stop, hchildren, -, -⟩ := (h.node node).children
    rw [← hchildren] at hplace
    obtain ⟨held, hheld, rfl⟩ := List.mem_map.1 hplace
    rw [hchildren] at hplace
    have howned : held.id ∈ node.data.owned := List.mem_append_left _ hplace
    exact ⟨held.data, getElem?_eq_data held, h.parent_of_owned howned,
      Eq.mpr (if_neg hchild) hplace⟩

theorem nodeSound (h : tree.Coherent) (node : Node tree) :
    tree.NodeSound node.id node.data := by
  have hnode := h.node node
  obtain ⟨children, stop, hids, hspans, hend⟩ := hnode.children
  have howned : ∀ child ∈ children, child.id ∈ node.data.owned := by
    intro child hm
    refine List.mem_append_left _ ?_
    rw [← hids]
    exact List.mem_map_of_mem hm
  have hchained := h.chained howned hspans
  rw [hids] at hchained
  exact ⟨hnode.language, Utf8.isRange_iff.2 ⟨hnode.ordered,
    Utf8.isBoundary_toList_iff.2 hnode.start_valid, Utf8.isBoundary_toList_iff.2 hnode.stop_valid⟩,
    hnode.terminal, ⟨stop, hchained, hend⟩, hnode.slots_length, fun _ _ => h.slotSound⟩

theorem count_owned_eq_one (h : tree.Coherent) (node : Node tree) (hne : node.id ≠ 0) :
    tree.owned.count node.id = 1 := by
  obtain ⟨parent, -, hcount⟩ := h.owned_once node hne
  have hothers : ∀ other, other ≠ parent → other ∈ tree.allNodes →
      other.data.owned.count node.id = 0 := by
    intro other ho _
    rw [hcount, if_neg ho]
  rw [count_owned, List.sum_map_eq_nsmul_single parent _ hothers, hcount, if_pos rfl,
    List.count_eq_one_of_mem tree.nodup_allNodes (mem_allNodes parent)]
  rfl

theorem valid (h : tree.Coherent) : tree.Valid := by
  obtain ⟨hparent, hspan, -⟩ := h.root ⟨0, h.size_pos⟩ rfl
  refine valid_iff.2 ⟨Nat.le_of_lt_succ h.size_lt,
    ⟨_, Array.getElem?_eq_getElem h.size_pos, hparent, hspan⟩, fun id data hdata => ?_,
    fun id hlt => h.count_owned_eq_one ⟨id, hlt⟩⟩
  obtain ⟨hlt, rfl⟩ := Array.getElem?_eq_some_iff.1 hdata
  exact h.nodeSound ⟨id, hlt⟩

end Coherent

/-- Validation leaves the bounds of no array, and accepts the coherent trees and no others. -/
theorem validate_decides (tree : Tree) :
    tree.scan.run = some tree.validate ∧ (tree.validate = .ok () ↔ tree.Coherent) :=
  ⟨run_scan tree, fun h => Valid.coherent h, Coherent.valid⟩

end Tree

end CodeTree

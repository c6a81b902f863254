import CodeTree.Proofs.Erasure
import CodeTree.Proofs.Checks
import CodeTree.Tree.Walk
import Mathlib.Data.List.Forall2

/-!
# Walks of outlines

In a tree that was made from an outline, a node stands for a part of the outline, and what is below
the node stands for what is below the part. So the walk of the tree is the walk of the outline
(`StandsAt.exists_descendants`), which needs neither ids nor steps. Erasing an outline takes nodes
from its walk that are error leaves and variation points only.
-/

namespace CodeTree

namespace Outline

variable {tree : Tree}

/-- Whether an outline is laid out at a node. -/
def StandsAt (outline : Outline) (node : Node tree) : Prop :=
  ∃ parent, outline.LaidOut tree parent node.id

theorem StandsAt.exists_data {label : Label} {parts : List Outline} {node : Node tree}
    (h : (Outline.node label parts).StandsAt node) :
    ∃ parent, node.data = entry parent node.id label parts ∧
      AllLaidOut tree node.id (node.id + 1) parts := by
  obtain ⟨parent, hl⟩ := h
  obtain ⟨hdata, hparts⟩ := laidOut_node.1 hl
  have hget : tree.nodes[node.id]? = some node.data := Array.getElem?_eq_getElem node.id_lt
  rw [hget] at hdata
  exact ⟨parent, Option.some.inj hdata, hparts⟩

theorem StandsAt.kind_eq {outline : Outline} {node : Node tree} (h : outline.StandsAt node) :
    node.kind = outline.label.kind := by
  cases outline with
  | node label parts =>
    obtain ⟨parent, hdata, -⟩ := h.exists_data
    rw [Node.kind, hdata]
    rfl

theorem StandsAt.span_eq {outline : Outline} {node : Node tree} (h : outline.StandsAt node) :
    node.span = outline.label.span := by
  cases outline with
  | node label parts =>
    obtain ⟨parent, hdata, -⟩ := h.exists_data
    rw [Node.span, hdata]
    rfl

mutual

theorem LaidOut.size_le {parent : Option NodeId} {id : Nat} :
    ∀ {outline : Outline}, outline.LaidOut tree parent id → id + outline.size ≤ tree.nodes.size
  | .node label parts, h => by
    obtain ⟨hdata, hparts⟩ := laidOut_node.1 h
    have hlt : id < tree.nodes.size := (Array.getElem?_eq_some_iff.1 hdata).1
    have hle := AllLaidOut.size_le hparts hlt
    rw [size_node]
    omega

theorem AllLaidOut.size_le {parent first : Nat} :
    ∀ {parts : List Outline}, AllLaidOut tree parent first parts → first ≤ tree.nodes.size →
      first + sizeAll parts ≤ tree.nodes.size
  | [], _, hle => by
    rw [sizeAll_nil]
    exact hle
  | part :: rest, h, _ => by
    rw [AllLaidOut] at h
    have hpart := LaidOut.size_le h.1
    have hrest := AllLaidOut.size_le h.2 hpart
    rw [sizeAll_cons]
    omega

end

theorem StandsAt.size_le {outline : Outline} {node : Node tree} (h : outline.StandsAt node) :
    outline.size ≤ tree.nodes.size := by
  obtain ⟨parent, hl⟩ := h
  have hle : node.id + outline.size ≤ tree.nodes.size := hl.size_le
  exact Nat.le_trans (Nat.le_add_left _ _) hle

theorem AllLaidOut.exists_nodesAt {parent first : NodeId} {parts : List Outline}
    (h : AllLaidOut tree parent first parts) (p : Label → Bool) :
    ∃ nodes, tree.nodesAt (idsWhere p first parts) = .ok nodes ∧
      List.Forall₂ StandsAt (parts.filter fun part => p part.label) nodes := by
  induction parts generalizing first with
  | nil => exact ⟨[], rfl, .nil⟩
  | cons part rest ih =>
    rw [AllLaidOut] at h
    obtain ⟨nodes, hnodes, hstands⟩ := ih h.2
    rw [idsWhere, numbered, List.filter_cons, List.filter_cons]
    cases hp : p part.label with
    | false =>
      rw [if_neg (by simp), if_neg (by simp)]
      exact ⟨nodes, hnodes, hstands⟩
    | true =>
      have hlt : first < tree.nodes.size :=
        Nat.lt_of_lt_of_le (Nat.lt_add_of_pos_right part.size_pos) (LaidOut.size_le h.1)
      rw [if_pos rfl, if_pos rfl]
      refine ⟨⟨first, hlt⟩ :: nodes, ?_, .cons ⟨some parent, h.1⟩ hstands⟩
      have hfirst : tree.node first = .ok ⟨first, hlt⟩ := dif_pos hlt
      rw [Tree.nodesAt] at hnodes ⊢
      rw [List.map_cons, List.mapM_cons, hfirst]
      rw [idsWhere] at hnodes
      rw [hnodes]
      rfl

/-- The children of a node stand for the parts that are no alternatives. -/
theorem StandsAt.exists_children {label : Label} {parts : List Outline} {node : Node tree}
    (h : (Outline.node label parts).StandsAt node) :
    ∃ children, node.children = .ok children ∧
      List.Forall₂ StandsAt (parts.filter fun part => !part.label.detached) children := by
  obtain ⟨parent, hdata, hparts⟩ := h.exists_data
  rw [Node.children, hdata]
  exact hparts.exists_nodesAt (!·.detached)

mutual

/-- The outlines below an outline, without alternatives, in pre-order. -/
def walk : Outline → List Outline
  | .node label parts => .node label parts :: walkAll parts

def walkAll : List Outline → List Outline
  | [] => []
  | part :: rest => if part.label.detached then walkAll rest else part.walk ++ walkAll rest

end

theorem walk_node (label : Label) (parts : List Outline) :
    (node label parts).walk = node label parts :: walkAll parts := by rw [walk]

theorem walkAll_eq_flatMap (parts : List Outline) :
    walkAll parts = (parts.filter fun part => !part.label.detached).flatMap walk := by
  induction parts with
  | nil => rw [walkAll, List.filter_nil, List.flatMap_nil]
  | cons part rest ih =>
    rw [walkAll, List.filter_cons]
    cases part.label.detached with
    | true => simpa using ih
    | false => simpa using ih

mutual

theorem length_walk_le : ∀ outline : Outline, outline.walk.length ≤ outline.size
  | .node label parts => by
    have hparts := length_walkAll_le parts
    rw [walk_node, size_node, List.length_cons]
    omega

theorem length_walkAll_le : ∀ parts : List Outline, (walkAll parts).length ≤ sizeAll parts
  | [] => by simp [walkAll]
  | part :: rest => by
    have hpart := length_walk_le part
    have hrest := length_walkAll_le rest
    rw [walkAll, sizeAll_cons]
    split
    · omega
    · rw [List.length_append]
      omega

end

/-- Visiting nodes visits what is below the outlines that stand there. -/
theorem exists_visit (steps : Nat) (outlines : List Outline) (pending : List (Node tree))
    (h : List.Forall₂ StandsAt outlines pending)
    (hsteps : (outlines.flatMap walk).length ≤ steps) :
    ∃ nodes, Node.visit steps pending = .ok (some nodes) ∧
      List.Forall₂ StandsAt (outlines.flatMap walk) nodes := by
  induction steps generalizing outlines pending with
  | zero =>
    cases h with
    | nil => exact ⟨[], rfl, .nil⟩
    | @cons outline node outlines pending hnode hrest =>
      cases outline with
      | node label parts =>
        rw [List.flatMap_cons, walk_node, List.cons_append, List.length_cons] at hsteps
        omega
  | succ steps ih =>
    cases h with
    | nil => exact ⟨[], rfl, .nil⟩
    | @cons outline node outlines pending hnode hrest =>
      cases outline with
      | node label parts =>
        obtain ⟨children, hok, hchildren⟩ := hnode.exists_children
        rw [List.flatMap_cons, walk_node, List.cons_append, walkAll_eq_flatMap,
          ← List.flatMap_append] at hsteps ⊢
        rw [List.length_cons] at hsteps
        obtain ⟨nodes, hvisit, hstands⟩ := ih _ (children ++ pending)
          (List.rel_append hchildren hrest) (Nat.le_of_succ_le_succ hsteps)
        refine ⟨node :: nodes, ?_, .cons hnode hstands⟩
        rw [Node.visit, hok]
        simp only [bind, Except.bind, hvisit]
        rfl

theorem StandsAt.exists_descendants {outline : Outline} {node : Node tree}
    (h : outline.StandsAt node) :
    ∃ nodes, node.descendants = .ok nodes ∧ List.Forall₂ StandsAt outline.walk nodes := by
  have hlength : ([outline].flatMap walk).length ≤ tree.nodes.size := by
    rw [List.flatMap_singleton]
    exact Nat.le_trans (length_walk_le outline) h.size_le
  obtain ⟨nodes, hvisit, hstands⟩ := exists_visit tree.nodes.size [outline] [node]
    (.cons h .nil) hlength
  rw [List.flatMap_singleton] at hstands
  refine ⟨nodes, ?_, hstands⟩
  rw [Node.descendants, hvisit]
  rfl

theorem rel_filter_kind {outlines : List Outline} {nodes : List (Node tree)}
    (h : List.Forall₂ StandsAt outlines nodes) (p : NodeKind → Bool) :
    List.Forall₂ StandsAt (outlines.filter fun part => p part.label.kind)
      (nodes.filter fun node => p node.kind) := by
  induction h with
  | nil => exact .nil
  | @cons part node outlines nodes hstands _ ih =>
    rw [List.filter_cons, List.filter_cons, hstands.kind_eq]
    cases p part.label.kind with
    | true => exact .cons hstands ih
    | false => exact ih

mutual

theorem all_of_mem_walk {P : Label → List Outline → Prop} :
    ∀ {outline : Outline}, outline.All P → ∀ part ∈ outline.walk, part.All P
  | .node label parts, h => by
    intro part hm
    rw [walk_node] at hm
    rcases List.mem_cons.1 hm with rfl | hm
    · exact h
    · exact all_of_mem_walkAll (all_node.1 h).2 part hm

theorem all_of_mem_walkAll {P : Label → List Outline → Prop} :
    ∀ {parts : List Outline}, AllParts P parts → ∀ part ∈ walkAll parts, part.All P
  | [], _ => by simp [walkAll]
  | first :: rest, h => by
    rw [AllParts] at h
    intro part hm
    rw [walkAll] at hm
    split at hm
    · exact all_of_mem_walkAll h.2 part hm
    · rcases List.mem_append.1 hm with hm | hm
      · exact all_of_mem_walk h.1 part hm
      · exact all_of_mem_walkAll h.2 part hm

end

/-- Below a variation point the walk meets error leaves only. -/
theorem Pointed.kind_of_mem_walkAll {label : Label} {parts : List Outline} (h : Pointed label parts)
    (hk : label.kind = .special .variationPoint) :
    ∀ part ∈ walkAll parts, part.label.kind = .special .errorTree := by
  intro part hm
  rw [walkAll_eq_flatMap, List.mem_flatMap] at hm
  obtain ⟨first, hfirst, hpart⟩ := hm
  obtain ⟨hmem, hdetached⟩ := List.mem_filter.1 hfirst
  obtain ⟨hparts, hkind⟩ := h.raw hk first hmem (by simpa using hdetached)
  cases first with
  | node inner below =>
    rw [parts_node] at hparts
    subst hparts
    rw [walk_node, walkAll, List.mem_singleton] at hpart
    rw [hpart]
    exact hkind

mutual

theorem filter_walk_erase {p : NodeKind → Bool} (hpoint : p (.special .variationPoint) = false)
    (herror : p (.special .errorTree) = false) : ∀ {outline : Outline}, outline.All Pointed →
    outline.erase.walk.filter (fun part => p part.label.kind) =
      (outline.walk.filter fun part => p part.label.kind).map erase
  | .node label parts, h => by
    obtain ⟨hpointed, hparts⟩ := all_node.1 h
    by_cases hk : label.kind = .special .variationPoint
    · have hbelow : (walkAll parts).filter (fun part => p part.label.kind) = [] := by
        rw [List.filter_eq_nil_iff]
        intro part hm
        rw [hpointed.kind_of_mem_walkAll hk part hm, herror]
        simp
      have hkind : label.erase.kind = .special .errorTree := by rw [Label.erase, if_pos hk]
      rw [erase_point hk, walk_node, walk_node, walkAll, List.filter_cons, List.filter_cons, hbelow,
        label_node, label_node, hkind, herror, hk, hpoint]
      rfl
    · rw [erase_node hk, walk_node, walk_node, List.filter_cons, List.filter_cons,
        filter_walkAll_eraseAll hpoint herror hparts, label_node, label_node]
      split
      · rw [List.map_cons, erase_node hk]
      · rfl

theorem filter_walkAll_eraseAll {p : NodeKind → Bool}
    (hpoint : p (.special .variationPoint) = false) (herror : p (.special .errorTree) = false) :
    ∀ {parts : List Outline}, AllParts Pointed parts →
    (walkAll (eraseAll parts)).filter (fun part => p part.label.kind) =
      ((walkAll parts).filter fun part => p part.label.kind).map erase
  | [], _ => by rw [eraseAll_nil, walkAll, List.filter_nil, List.map_nil]
  | part :: rest, h => by
    rw [AllParts] at h
    rw [eraseAll_cons, walkAll]
    cases hd : part.label.detached with
    | true =>
      rw [if_pos rfl, if_pos rfl]
      exact filter_walkAll_eraseAll hpoint herror h.2
    | false =>
      have hd' : part.erase.label.detached = false := by
        rw [label_erase, Label.detached_erase, hd]
      rw [if_neg (by simp), if_neg (by simp), walkAll, hd', if_neg (by simp), List.filter_append,
        List.filter_append, List.map_append, filter_walk_erase hpoint herror h.1,
        filter_walkAll_eraseAll hpoint herror h.2]

end

end Outline

end CodeTree

import CodeTree.Proofs.Declarations
import CodeTree.Tree.Basic

/-!
# Outlines

An outline is a tree without ids: every node has a kind, the slot it was given, a span, and its
parts in the order in which they come. Alternatives are parts that are no children. Numbering the
nodes of an outline in pre-order gives an array of nodes (`nodes`) and so a tree (`toTree`).

`LaidOut` says that a tree has an outline at an id. A tree made from an outline has the whole
outline at its root, and every node of such a tree is a node of the outline
(`exists_laidOut_of_lt`), so what holds at every node of an outline holds of every node of the tree.
-/

namespace CodeTree

namespace Outline

/-- A node of an outline without its parts. -/
structure Label where
  kind : NodeKind
  /-- The slot that the node was given. Without one it goes to the rest slot or to none. -/
  slot : Option Slot
  span : Span
  /-- Whether the node is an alternative, which is no child. -/
  detached : Bool
  deriving DecidableEq

namespace Label

/-- The slot of a parent of the given kind that holds the node. -/
def placeIn (label : Label) (parent : NodeKind) : Option Slot :=
  parent.place label.slot label.kind

end Label

end Outline

inductive Outline where
  | node (label : Outline.Label) (parts : List Outline)

namespace Outline

def label : Outline → Label
  | .node label _ => label

def parts : Outline → List Outline
  | .node _ parts => parts

@[simp] theorem label_node (label : Label) (parts : List Outline) :
    (node label parts).label = label := rfl

@[simp] theorem parts_node (label : Label) (parts : List Outline) :
    (node label parts).parts = parts := rfl

mutual

def size : Outline → Nat
  | .node _ parts => sizeAll parts + 1

def sizeAll : List Outline → Nat
  | [] => 0
  | part :: rest => part.size + sizeAll rest

end

theorem size_node (label : Label) (parts : List Outline) :
    (node label parts).size = sizeAll parts + 1 := by rw [size]

@[simp] theorem sizeAll_nil : sizeAll [] = 0 := by rw [sizeAll]

@[simp] theorem sizeAll_cons (part : Outline) (rest : List Outline) :
    sizeAll (part :: rest) = part.size + sizeAll rest := by rw [sizeAll]

theorem size_pos (outline : Outline) : 0 < outline.size := by
  cases outline with
  | node label parts => rw [size_node]; omega

theorem size_le_sizeAll {part : Outline} {parts : List Outline} (h : part ∈ parts) :
    part.size ≤ sizeAll parts := by
  induction parts with
  | nil => cases h
  | cons first rest ih =>
    rw [sizeAll_cons]
    rcases List.mem_cons.1 h with rfl | h
    · exact Nat.le_add_right _ _
    · exact Nat.le_trans (ih h) (Nat.le_add_left _ _)

theorem size_lt_of_mem {part outline : Outline} (h : part ∈ outline.parts) :
    part.size < outline.size := by
  cases outline with
  | node label parts =>
    rw [size_node]
    exact Nat.lt_succ_of_le (size_le_sizeAll h)

/-- Parts with their ids, when the first of them has the id `first`. -/
def numbered (first : NodeId) : List Outline → List (NodeId × Outline)
  | [] => []
  | part :: rest => (first, part) :: numbered (first + part.size) rest

@[simp] theorem map_snd_numbered (first : NodeId) (parts : List Outline) :
    (numbered first parts).map (·.2) = parts := by
  induction parts generalizing first with
  | nil => rfl
  | cons part rest ih => simp [numbered, ih]

theorem countP_numbered (first : NodeId) (parts : List Outline) (p : Outline → Bool) :
    (numbered first parts).countP (fun head => p head.2) = parts.countP p := by
  conv => rhs; rw [← map_snd_numbered first parts, List.countP_map]
  rfl

theorem mem_of_mem_numbered {first : NodeId} {parts : List Outline} {head : NodeId × Outline}
    (h : head ∈ numbered first parts) : head.2 ∈ parts := by
  rw [← map_snd_numbered first parts]
  exact List.mem_map_of_mem h

def idsWhere (p : Label → Bool) (first : NodeId) (parts : List Outline) : List NodeId :=
  ((numbered first parts).filter fun head => p head.2.label).map (·.1)

theorem mem_idsWhere {p : Label → Bool} {first : NodeId} {parts : List Outline} {id : NodeId} :
    id ∈ idsWhere p first parts ↔
      ∃ part, (id, part) ∈ numbered first parts ∧ p part.label = true := by
  simp only [idsWhere, List.mem_map, List.mem_filter]
  constructor
  · rintro ⟨head, ⟨hmem, hp⟩, rfl⟩
    exact ⟨head.2, hmem, hp⟩
  · rintro ⟨part, hmem, hp⟩
    exact ⟨(id, part), ⟨hmem, hp⟩, rfl⟩

theorem length_idsWhere (p : Label → Bool) (first : NodeId) (parts : List Outline) :
    (idsWhere p first parts).length = parts.countP fun part => p part.label := by
  rw [idsWhere, List.length_map, ← List.countP_eq_length_filter,
    countP_numbered first parts fun part => p part.label]

/-- What a tree stores of a node, when its parts are numbered right after it. -/
def entry (parent : Option NodeId) (id : NodeId) (label : Label) (parts : List Outline) :
    NodeData where
  kind := label.kind
  span := label.span
  parent := parent
  children := idsWhere (!·.detached) (id + 1) parts
  slots := label.kind.slots.map fun decl =>
    idsWhere (·.placeIn label.kind == some decl.slot) (id + 1) parts

section

variable (parent : Option NodeId) (id : NodeId) (label : Label) (parts : List Outline)

@[simp] theorem kind_entry : (entry parent id label parts).kind = label.kind := rfl

@[simp] theorem span_entry : (entry parent id label parts).span = label.span := rfl

@[simp] theorem parent_entry : (entry parent id label parts).parent = parent := rfl

@[simp] theorem children_entry :
    (entry parent id label parts).children = idsWhere (!·.detached) (id + 1) parts := rfl

@[simp] theorem slots_entry :
    (entry parent id label parts).slots = label.kind.slots.map fun decl =>
      idsWhere (·.placeIn label.kind == some decl.slot) (id + 1) parts := rfl

end

mutual

/-- The nodes in pre-order, when the first of them has the given id and parent. -/
def nodes (parent : Option NodeId) (id : NodeId) : Outline → List NodeData
  | .node label parts => entry parent id label parts :: nodesAll id (id + 1) parts

def nodesAll (parent : NodeId) (first : NodeId) : List Outline → List NodeData
  | [] => []
  | part :: rest => part.nodes (some parent) first ++ nodesAll parent (first + part.size) rest

end

theorem nodes_node (parent : Option NodeId) (id : NodeId) (label : Label) (parts : List Outline) :
    (node label parts).nodes parent id =
      entry parent id label parts :: nodesAll id (id + 1) parts := by rw [nodes]

@[simp] theorem nodesAll_nil (parent first : NodeId) : nodesAll parent first [] = [] := by
  rw [nodesAll]

theorem nodesAll_cons (parent first : NodeId) (part : Outline) (rest : List Outline) :
    nodesAll parent first (part :: rest) =
      part.nodes (some parent) first ++ nodesAll parent (first + part.size) rest := by
  rw [nodesAll]

mutual

theorem length_nodes (parent : Option NodeId) (id : NodeId) :
    ∀ outline : Outline, (outline.nodes parent id).length = outline.size
  | .node label parts => by
    rw [nodes_node, size_node, List.length_cons, length_nodesAll id (id + 1) parts]

theorem length_nodesAll (parent first : NodeId) :
    ∀ parts : List Outline, (nodesAll parent first parts).length = sizeAll parts
  | [] => by simp
  | part :: rest => by
    rw [nodesAll_cons, sizeAll_cons, List.length_append,
      length_nodes (some parent) first part, length_nodesAll parent (first + part.size) rest]

end

def toTree (language : Language) (source : String) (outline : Outline) : Tree :=
  Tree.ofParts language source (outline.nodes none NodeId.root).toArray

@[simp] theorem language_toTree (language : Language) (source : String) (outline : Outline) :
    (outline.toTree language source).language = language := rfl

@[simp] theorem source_toTree (language : Language) (source : String) (outline : Outline) :
    (outline.toTree language source).source = source := rfl

@[simp] theorem size_toTree (language : Language) (source : String) (outline : Outline) :
    (outline.toTree language source).size = outline.size := by
  simp [toTree, Tree.size, Tree.ofParts, length_nodes]

mutual

/-- Whether a condition holds at every node of an outline. -/
def All (P : Label → List Outline → Prop) : Outline → Prop
  | .node label parts => P label parts ∧ AllParts P parts

def AllParts (P : Label → List Outline → Prop) : List Outline → Prop
  | [] => True
  | part :: rest => part.All P ∧ AllParts P rest

end

theorem all_node {P : Label → List Outline → Prop} {label : Label} {parts : List Outline} :
    (node label parts).All P ↔ P label parts ∧ AllParts P parts := by rw [All]

theorem allParts_iff {P : Label → List Outline → Prop} {parts : List Outline} :
    AllParts P parts ↔ ∀ part ∈ parts, part.All P := by
  induction parts with
  | nil => simp [AllParts]
  | cons part rest ih => simp [AllParts, ih]

theorem allParts_append {P : Label → List Outline → Prop} {first second : List Outline} :
    AllParts P (first ++ second) ↔ AllParts P first ∧ AllParts P second := by
  simp only [allParts_iff, List.mem_append, or_imp, forall_and]

theorem All.here {P : Label → List Outline → Prop} {outline : Outline} (h : outline.All P) :
    P outline.label outline.parts := by
  cases outline with
  | node label parts => exact (all_node.1 h).1

mutual

theorem All.imp {P Q : Label → List Outline → Prop} (hpq : ∀ label parts, P label parts →
    Q label parts) : ∀ {outline : Outline}, outline.All P → outline.All Q
  | .node label parts, h => by
    obtain ⟨hhere, hparts⟩ := all_node.1 h
    exact all_node.2 ⟨hpq label parts hhere, AllParts.imp hpq hparts⟩

theorem AllParts.imp {P Q : Label → List Outline → Prop} (hpq : ∀ label parts, P label parts →
    Q label parts) : ∀ {parts : List Outline}, AllParts P parts → AllParts Q parts
  | [], _ => trivial
  | _ :: _, h => ⟨All.imp hpq h.1, AllParts.imp hpq h.2⟩

end

variable {tree : Tree}

mutual

/-- Whether a tree has an outline at an id, below the given parent. -/
def LaidOut (tree : Tree) (parent : Option NodeId) (id : NodeId) : Outline → Prop
  | .node label parts =>
    tree.nodes[id]? = some (entry parent id label parts) ∧ AllLaidOut tree id (id + 1) parts

def AllLaidOut (tree : Tree) (parent : NodeId) (first : NodeId) : List Outline → Prop
  | [] => True
  | part :: rest =>
    part.LaidOut tree (some parent) first ∧ AllLaidOut tree parent (first + part.size) rest

end

theorem laidOut_node {parent : Option NodeId} {id : NodeId} {label : Label}
    {parts : List Outline} :
    (node label parts).LaidOut tree parent id ↔
      tree.nodes[id]? = some (entry parent id label parts) ∧ AllLaidOut tree id (id + 1) parts := by
  rw [LaidOut]

theorem AllLaidOut.of_mem {parent first : NodeId} {parts : List Outline}
    (h : AllLaidOut tree parent first parts) {head : NodeId × Outline}
    (hm : head ∈ numbered first parts) : head.2.LaidOut tree (some parent) head.1 := by
  induction parts generalizing first with
  | nil => cases hm
  | cons part rest ih =>
    rw [AllLaidOut] at h
    rcases List.mem_cons.1 hm with rfl | hm
    · exact h.1
    · exact ih h.2 hm

mutual

theorem laidOut_of_nodes_eq (parent : Option NodeId) (before after : List NodeData) :
    ∀ outline : Outline,
      tree.nodes.toList = before ++ (outline.nodes parent before.length ++ after) →
        outline.LaidOut tree parent before.length
  | .node label parts, h => by
    rw [nodes_node] at h
    rw [laidOut_node]
    constructor
    · rw [← Array.getElem?_toList, h]
      simp
    · have h' : tree.nodes.toList =
          (before ++ [entry parent before.length label parts]) ++
            (nodesAll before.length
              (before ++ [entry parent before.length label parts]).length parts ++ after) := by
        simpa using h
      simpa using allLaidOut_of_nodes_eq before.length _ after parts h'

theorem allLaidOut_of_nodes_eq (parent : NodeId) (before after : List NodeData) :
    ∀ parts : List Outline,
      tree.nodes.toList = before ++ (nodesAll parent before.length parts ++ after) →
        AllLaidOut tree parent before.length parts
  | [], _ => by rw [AllLaidOut]; trivial
  | part :: rest, h => by
    rw [nodesAll_cons] at h
    rw [AllLaidOut]
    constructor
    · exact laidOut_of_nodes_eq (some parent) before
        (nodesAll parent (before.length + part.size) rest ++ after) part (by simpa using h)
    · have hl : (before ++ part.nodes (some parent) before.length).length =
          before.length + part.size := by rw [List.length_append, length_nodes]
      rw [← hl]
      exact allLaidOut_of_nodes_eq parent (before ++ part.nodes (some parent) before.length) after
        rest (by rw [hl]; simpa using h)

end

theorem laidOut_toTree (language : Language) (source : String) (outline : Outline) :
    outline.LaidOut (outline.toTree language source) none NodeId.root := by
  apply laidOut_of_nodes_eq none [] []
  simp [toTree, Tree.ofParts, NodeId.root]

mutual

theorem exists_laidOut_of_lt {P : Label → List Outline → Prop} (parent : Option NodeId)
    (id : Nat) : ∀ outline : Outline, outline.LaidOut tree parent id → outline.All P →
      ∀ i : Nat, id ≤ i → i < id + outline.size →
        ∃ parent label parts, (node label parts).LaidOut tree parent i ∧
          (node label parts).All P
  | .node label parts, hl, ha, i, hi, hlt => by
    by_cases he : i = id
    · subst he
      exact ⟨parent, label, parts, hl, ha⟩
    · rw [size_node] at hlt
      exact exists_laidOut_of_lt_all id (id + 1) parts (laidOut_node.1 hl).2 (all_node.1 ha).2 i
        (by omega) (by omega)

theorem exists_laidOut_of_lt_all {P : Label → List Outline → Prop} (parent first : Nat) :
    ∀ parts : List Outline, AllLaidOut tree parent first parts → AllParts P parts →
      ∀ i : Nat, first ≤ i → i < first + sizeAll parts →
        ∃ parent label parts, (node label parts).LaidOut tree parent i ∧
          (node label parts).All P
  | [], _, _, i, hi, hlt => by
    rw [sizeAll_nil] at hlt
    omega
  | part :: rest, hl, ha, i, hi, hlt => by
    rw [AllLaidOut] at hl
    rw [AllParts] at ha
    rw [sizeAll_cons] at hlt
    by_cases hpart : i < first + part.size
    · exact exists_laidOut_of_lt (some parent) first part hl.1 ha.1 i hi hpart
    · exact exists_laidOut_of_lt_all parent (first + part.size) rest hl.2 ha.2 i (by omega)
        (by omega)

end

end Outline

end CodeTree

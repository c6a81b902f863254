import CodeTree.Proofs.ValidNodes
import Mathlib.Data.List.Perm.Subperm
import Mathlib.Data.Fintype.Pigeonhole
import Mathlib.Logic.Relation

/-!
# Ancestry

A node owns its children and, if it is a variation point, its alternatives. In a valid tree a node
owns just those that have it as their parent (`Valid.owns_iff`), so the nodes that are reached from
the root by going down are those from which the root is reached by going up
(`Valid.reaches_iff_climbsTo`). Each of them has a depth, which grows by one with every link and is
less than the number of nodes; this is the measure by which whatever goes down the tree ends.

Validity asks no more of the other nodes than that each has one owner, and so a walk up from one of
them does not end: it comes to a node that is its own ancestor (`Valid.climbsTo_root_or_cycle`).
-/

namespace CodeTree

open Relation

namespace Node

variable {tree : Tree}

def HasChild (node child : Node tree) : Prop := child.id ∈ node.data.children

def Owns (node held : Node tree) : Prop := held.id ∈ node.data.owned

/-- Whether a node is reached from another through children. Every node is above itself. -/
def Above : Node tree → Node tree → Prop := ReflTransGen HasChild

def Reaches : Node tree → Node tree → Prop := ReflTransGen Owns

def HasParent (node parent : Node tree) : Prop := node.parent = .ok (some parent)

def ClimbsTo : Node tree → Node tree → Prop := ReflTransGen HasParent

/-- Whether a node is reached from itself by following one parent link or more. -/
def OwnAncestor (node : Node tree) : Prop := TransGen HasParent node node

/-- Whether the root is reached from a node by following that many parent links. -/
inductive AtDepth : Nat → Node tree → Prop where
  | root {node : Node tree} (h : node.id = NodeId.root) : AtDepth 0 node
  | step {depth : Nat} {node parent : Node tree} (h : node.HasParent parent)
    (hp : AtDepth depth parent) : AtDepth (depth + 1) node

theorem hasParent_iff {node parent : Node tree} :
    node.HasParent parent ↔ node.data.parent = some parent.id := by
  rw [HasParent, Node.parent]
  cases node.data.parent with
  | none => simp
  | some id =>
    simp only [Tree.node, Option.some.injEq]
    by_cases hlt : id < tree.nodes.size
    · rw [dif_pos hlt]
      constructor
      · intro h
        cases h
        rfl
      · rintro rfl
        rfl
    · rw [dif_neg hlt]
      constructor
      · intro h
        cases h
      · rintro rfl
        exact absurd parent.id_lt hlt

theorem HasParent.unique {node a b : Node tree} (ha : node.HasParent a) (hb : node.HasParent b) :
    a = b := by
  have h := ha.symm.trans hb
  cases h
  rfl

theorem hasChild_iff {node child : Node tree} {children : List (Node tree)}
    (h : node.children = .ok children) : node.HasChild child ↔ child ∈ children := by
  rw [HasChild, Tree.map_id_of_nodesAt h, List.mem_map]
  constructor
  · rintro ⟨other, hm, hid⟩
    rwa [← Tree.node_ext hid]
  · intro hm
    exact ⟨child, hm, rfl⟩

theorem HasChild.owns {node child : Node tree} (h : node.HasChild child) : node.Owns child :=
  List.mem_append_left _ h

theorem Above.reaches {node other : Node tree} (h : node.Above other) : node.Reaches other := by
  induction h with
  | refl => exact .refl
  | tail _ hc ih => exact ih.tail hc.owns

end Node

namespace Tree

open Node

variable {tree : Tree}

theorem Valid.exists_owned (h : tree.Valid) (node : Node tree) {id : NodeId}
    (hm : id ∈ node.data.owned) : ∃ held : Node tree, held.id = id ∧ held.HasParent node := by
  rcases List.mem_append.1 hm with hm | hm
  · obtain ⟨children, -, hids, hparents, -⟩ := h.exists_children node
    rw [← hids] at hm
    obtain ⟨held, hheld, hid⟩ := List.mem_map.1 hm
    exact ⟨held, hid, hasParent_iff.2 (hparents held hheld)⟩
  · obtain ⟨⟨decl, ids⟩, hzip, hm⟩ := List.mem_flatMap.1 hm
    have hids : id ∈ ids := by
      simp only at hm
      split at hm
      · exact hm
      · cases hm
    obtain ⟨nodes, -, rfl, hparents⟩ := h.exists_slotted node (List.of_mem_zip hzip).2
    obtain ⟨held, hheld, hid⟩ := List.mem_map.1 hids
    exact ⟨held, hid, hasParent_iff.2 (hparents held hheld)⟩

theorem Valid.hasParent_of_owns (h : tree.Valid) {node held : Node tree} (ho : node.Owns held) :
    held.HasParent node := by
  obtain ⟨other, hid, hparent⟩ := h.exists_owned node ho
  rwa [← node_ext hid]

theorem Valid.id_ne_root_of_hasParent (h : tree.Valid) {node parent : Node tree}
    (hp : node.HasParent parent) : node.id ≠ NodeId.root := by
  intro hr
  rw [hasParent_iff, h.parent_of_root hr] at hp
  cases hp

theorem Valid.exists_owner (h : tree.Valid) {node : Node tree} (hr : node.id ≠ NodeId.root) :
    ∃ owner : Node tree, owner.Owns node := by
  have hcount := (valid_iff.1 h).2.2.2 node.id node.id_lt hr
  have hmem : node.id ∈ tree.owned := List.count_pos_iff.1 (by omega)
  obtain ⟨data, hdata, hm⟩ := List.mem_flatMap.1 hmem
  obtain ⟨i, hi, rfl⟩ := List.getElem_of_mem hdata
  exact ⟨⟨i, by simpa using hi⟩, hm⟩

theorem Valid.owns_iff (h : tree.Valid) {node held : Node tree} :
    node.Owns held ↔ held.HasParent node := by
  refine ⟨h.hasParent_of_owns, fun hp => ?_⟩
  obtain ⟨owner, ho⟩ := h.exists_owner (h.id_ne_root_of_hasParent hp)
  rwa [hp.unique (h.hasParent_of_owns ho)]

theorem Valid.exists_parent (h : tree.Valid) {node : Node tree} (hr : node.id ≠ NodeId.root) :
    ∃ parent, node.HasParent parent := by
  obtain ⟨owner, ho⟩ := h.exists_owner hr
  exact ⟨owner, h.owns_iff.1 ho⟩

theorem Valid.nodup_owned (h : tree.Valid) (node : Node tree) : node.data.owned.Nodup := by
  rw [List.nodup_iff_count]
  intro id
  by_cases hm : id ∈ node.data.owned
  · obtain ⟨held, rfl, hparent⟩ := h.exists_owned node hm
    have hmem : node.data ∈ tree.nodes.toList := Array.getElem_mem_toList node.id_lt
    have hsub : node.data.owned.Sublist tree.owned := by
      rw [owned, List.flatMap]
      exact List.sublist_flatten_of_mem (List.mem_map_of_mem hmem)
    rw [← (valid_iff.1 h).2.2.2 held.id held.id_lt (h.id_ne_root_of_hasParent hparent)]
    exact hsub.count_le held.id
  · rw [List.count_eq_zero_of_not_mem hm]
    exact Nat.zero_le _

theorem Valid.nodup_children (h : tree.Valid) (node : Node tree) : node.data.children.Nodup :=
  (List.nodup_append.1 (h.nodup_owned node)).1

theorem length_le_size {nodes : List (Node tree)} (h : nodes.Nodup) :
    nodes.length ≤ tree.nodes.size := by
  have hsub : nodes.Subperm tree.allNodes :=
    List.subperm_of_subset h fun node _ => mem_allNodes node
  have hle := hsub.length_le
  rwa [allNodes, List.length_map, List.length_finRange] at hle

theorem Valid.depth_unique (h : tree.Valid) {node : Node tree} {i j : Nat} (hi : AtDepth i node)
    (hj : AtDepth j node) : i = j := by
  induction hi generalizing j with
  | root hr =>
    cases hj with
    | root _ => rfl
    | step hp _ => exact absurd hr (h.id_ne_root_of_hasParent hp)
  | step hp _ ih =>
    cases hj with
    | root hr => exact absurd hr (h.id_ne_root_of_hasParent hp)
    | step hp' hdepth =>
      rw [hp.unique hp'] at ih
      rw [ih hdepth]

/-- The ancestors of a node have lesser depths, so they are different nodes. -/
theorem Valid.exists_ancestors (h : tree.Valid) {node : Node tree} {depth : Nat}
    (hd : AtDepth depth node) :
    ∃ above : List (Node tree), above.length = depth ∧ (node :: above).Nodup ∧
      ∀ other ∈ above, ∃ i < depth, AtDepth i other := by
  induction hd with
  | root _ => exact ⟨[], rfl, List.nodup_singleton _, by simp⟩
  | @step depth node parent hp hparent ih =>
    obtain ⟨above, hlength, hnodup, hdepths⟩ := ih
    have hall : ∀ other ∈ parent :: above, ∃ i < depth + 1, AtDepth i other := by
      refine List.forall_mem_cons.2 ⟨⟨depth, Nat.lt_succ_self _, hparent⟩, fun other hm => ?_⟩
      obtain ⟨i, hi, hother⟩ := hdepths other hm
      exact ⟨i, Nat.lt_succ_of_lt hi, hother⟩
    refine ⟨parent :: above, by rw [List.length_cons, hlength], ?_, hall⟩
    refine List.nodup_cons.2 ⟨fun hm => ?_, hnodup⟩
    obtain ⟨i, hi, hother⟩ := hall node hm
    rw [h.depth_unique hother (.step hp hparent)] at hi
    exact Nat.lt_irrefl _ hi

theorem Valid.depth_lt (h : tree.Valid) {node : Node tree} {depth : Nat}
    (hd : AtDepth depth node) : depth < tree.nodes.size := by
  obtain ⟨above, rfl, hnodup, -⟩ := h.exists_ancestors hd
  exact length_le_size hnodup

theorem Valid.atDepth_of_owns (h : tree.Valid) {node held : Node tree} {depth : Nat}
    (ho : node.Owns held) (hd : AtDepth depth node) : AtDepth (depth + 1) held :=
  .step (h.owns_iff.1 ho) hd

theorem Valid.exists_depth_of_above (h : tree.Valid) {node other : Node tree} {depth : Nat}
    (ha : node.Above other) (hd : AtDepth depth node) :
    ∃ i, AtDepth i other ∧ depth ≤ i ∧ (depth = i → node = other) := by
  induction ha with
  | refl => exact ⟨depth, hd, Nat.le_refl _, fun _ => rfl⟩
  | tail _ hchild ih =>
    obtain ⟨i, hi, hle, -⟩ := ih
    exact ⟨i + 1, h.atDepth_of_owns hchild.owns hi, by omega, by omega⟩

/-- Of two nodes of one depth, neither is above what the other is above. -/
theorem Valid.eq_of_above (h : tree.Valid) {a b other : Node tree} {depth : Nat}
    (hda : AtDepth depth a) (hdb : AtDepth depth b) (ha : a.Above other) (hb : b.Above other) :
    a = b := by
  have hself : ∀ {x y : Node tree}, AtDepth depth x → AtDepth depth y → x.Above y → x = y := by
    intro x y hx hy hxy
    obtain ⟨i, hi, -, heq⟩ := h.exists_depth_of_above hxy hx
    exact heq (h.depth_unique hy hi)
  induction ha with
  | refl => exact (hself hdb hda hb).symm
  | @tail middle other hmiddle hchild ih =>
    rcases ReflTransGen.cases_tail hb with rfl | ⟨parent, hparent, hlast⟩
    · exact hself hda hdb (hmiddle.tail hchild)
    · have hp := h.owns_iff.1 hchild.owns
      rw [← hp.unique (h.owns_iff.1 hlast.owns)] at hparent
      exact ih hparent

theorem Valid.exists_depth_of_reaches (h : tree.Valid) {node other : Node tree} {depth : Nat}
    (hr : node.Reaches other) (hd : AtDepth depth node) : ∃ i, AtDepth i other := by
  induction hr with
  | refl => exact ⟨depth, hd⟩
  | tail _ ho ih =>
    obtain ⟨i, hi⟩ := ih
    exact ⟨i + 1, h.atDepth_of_owns ho hi⟩

/-- Going down and going up are the same links. -/
theorem Valid.reaches_iff_climbsTo (h : tree.Valid) {node other : Node tree} :
    node.Reaches other ↔ other.ClimbsTo node := by
  have hswap : Function.swap (@HasParent tree) = Owns := by
    funext a b
    exact propext h.owns_iff.symm
  rw [ClimbsTo, ← reflTransGen_swap, hswap]
  rfl

theorem exists_depth_iff {root node : Node tree} (hr : tree.root = .ok root) :
    (∃ depth, AtDepth depth node) ↔ node.ClimbsTo root := by
  constructor
  · rintro ⟨depth, hd⟩
    induction hd with
    | root hid =>
      rw [node_ext (hid.trans (id_of_root hr).symm)]
      exact .refl
    | step hp _ ih => exact .head hp ih
  · intro hc
    induction hc using ReflTransGen.head_induction_on with
    | refl => exact ⟨0, .root (id_of_root hr)⟩
    | head hp _ ih =>
      obtain ⟨depth, hd⟩ := ih
      exact ⟨depth + 1, .step hp hd⟩

theorem Valid.atDepth_of_hasParent (h : tree.Valid) {node parent : Node tree} {depth : Nat}
    (hp : node.HasParent parent) (hd : AtDepth depth node) :
    ∃ i, depth = i + 1 ∧ AtDepth i parent := by
  cases hd with
  | root hid => exact absurd hid (h.id_ne_root_of_hasParent hp)
  | step hp' hparent =>
    rw [hp.unique hp']
    exact ⟨_, rfl, hparent⟩

theorem Valid.exists_depth_of_climbsTo (h : tree.Valid) {node other : Node tree} {depth : Nat}
    (hc : node.ClimbsTo other) (hd : AtDepth depth node) : ∃ i ≤ depth, AtDepth i other := by
  induction hc with
  | refl => exact ⟨depth, Nat.le_refl _, hd⟩
  | tail _ hp ih =>
    obtain ⟨i, hi, hother⟩ := ih
    obtain ⟨j, rfl, hparent⟩ := h.atDepth_of_hasParent hp hother
    exact ⟨j, by omega, hparent⟩

theorem Valid.not_ownAncestor (h : tree.Valid) {node : Node tree} {depth : Nat}
    (hd : AtDepth depth node) : ¬node.OwnAncestor := by
  intro hself
  obtain ⟨parent, hp, hup⟩ := TransGen.head'_iff.1 hself
  obtain ⟨i, rfl, hparent⟩ := h.atDepth_of_hasParent hp hd
  obtain ⟨j, hj, hnode⟩ := h.exists_depth_of_climbsTo hup hparent
  have heq := h.depth_unique hnode hd
  omega

/-- The parent links of a node lead to the root or into a cycle. -/
theorem Valid.climbsTo_root_or_cycle (h : tree.Valid) {root : Node tree}
    (hr : tree.root = .ok root) (node : Node tree) :
    node.ClimbsTo root ∨ ∃ ancestor, node.ClimbsTo ancestor ∧ ancestor.OwnAncestor := by
  by_cases hroot : node.ClimbsTo root
  · exact .inl hroot
  · -- No ancestor is the root, so each has a parent, and one of them must come again.
    have hnext : ∀ ancestor : Node tree, ∃ next, node.ClimbsTo ancestor →
        ancestor.HasParent next := by
      intro ancestor
      by_cases hid : ancestor.id = NodeId.root
      · refine ⟨ancestor, fun hc => absurd ?_ hroot⟩
        rwa [← node_ext (hid.trans (id_of_root hr).symm)]
      · obtain ⟨parent, hp⟩ := h.exists_parent hid
        exact ⟨parent, fun _ => hp⟩
    choose next hnext using hnext
    have hclimbs : ∀ i, node.ClimbsTo (next^[i] node) := by
      intro i
      induction i with
      | zero => exact .refl
      | succ i ih =>
        rw [Function.iterate_succ_apply']
        exact ih.tail (hnext _ ih)
    have hup : ∀ i j, TransGen HasParent (next^[i] node) (next^[i + j + 1] node) := by
      intro i j
      induction j with
      | zero =>
        rw [Nat.add_zero, Function.iterate_succ_apply']
        exact .single (hnext _ (hclimbs i))
      | succ j ih =>
        rw [← Nat.add_assoc, Function.iterate_succ_apply']
        exact ih.tail (hnext _ (hclimbs _))
    have hinjective : Function.Injective (@Node.index tree) := fun a b hab =>
      node_ext (congrArg Fin.val hab)
    have := Finite.of_injective _ hinjective
    obtain ⟨i, j, hne, heq⟩ := Finite.exists_ne_map_eq_of_infinite fun i => next^[i] node
    have hcycle : ∀ i j, i < j → next^[i] node = next^[j] node →
        (next^[i] node).OwnAncestor := by
      intro i j hlt heq
      have hj := hup i (j - i - 1)
      rwa [show i + (j - i - 1) + 1 = j by omega, ← heq] at hj
    rcases Nat.lt_or_gt_of_ne hne with hlt | hlt
    · exact .inr ⟨_, hclimbs i, hcycle i j hlt heq⟩
    · exact .inr ⟨_, hclimbs j, hcycle j i hlt heq.symm⟩

end Tree

end CodeTree

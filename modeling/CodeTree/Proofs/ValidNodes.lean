import CodeTree.Proofs.Checks
import CodeTree.Proofs.Declarations
import CodeTree.Proofs.Utf8Slices
import CodeTree.Tree.Slots

/-!
# Nodes of valid trees

What a valid tree says of one node: its text exists, its children exist and follow one another, and
if there are any they cover what the node covers. Only the root has no parent.
-/

namespace CodeTree

/-- Whether spans follow one another from one offset to another. -/
def Consecutive : Nat → List Span → Nat → Prop
  | start, [], stop => start = stop
  | start, span :: rest, stop =>
    span.start = start ∧ span.start ≤ span.stop ∧ Consecutive span.stop rest stop

theorem Consecutive.append {start middle stop : Nat} {first second : List Span}
    (h : Consecutive start first middle) (h' : Consecutive middle second stop) :
    Consecutive start (first ++ second) stop := by
  induction first generalizing start with
  | nil =>
    obtain rfl : start = middle := h
    exact h'
  | cons span rest ih =>
    obtain ⟨hstart, hle, hrest⟩ := h
    exact ⟨hstart, hle, ih hrest⟩

theorem Consecutive.le {start stop : Nat} {spans : List Span} (h : Consecutive start spans stop) :
    start ≤ stop := by
  induction spans generalizing start with
  | nil => exact Nat.le_of_eq h
  | cons span rest ih =>
    obtain ⟨hstart, hle, hrest⟩ := h
    have hlast := ih hrest
    omega

theorem Consecutive.within {start stop : Nat} {spans : List Span} (h : Consecutive start spans stop)
    {span : Span} (hm : span ∈ spans) : start ≤ span.start ∧ span.stop ≤ stop := by
  induction spans generalizing start with
  | nil => cases hm
  | cons first rest ih =>
    obtain ⟨rfl, hle, hrest⟩ := h
    rcases List.mem_cons.1 hm with rfl | hm
    · exact ⟨Nat.le_refl _, hrest.le⟩
    · obtain ⟨hstart, hstop⟩ := ih hrest hm
      exact ⟨Nat.le_trans hle hstart, hstop⟩

theorem Consecutive.pairwise {start stop : Nat} {spans : List Span}
    (h : Consecutive start spans stop) :
    spans.Pairwise fun before after => before.stop ≤ after.start := by
  induction spans generalizing start with
  | nil => exact .nil
  | cons span rest ih =>
    obtain ⟨-, -, hrest⟩ := h
    exact .cons (fun after hm => (hrest.within hm).1) (ih hrest)

def Span.covers (span : Span) (offset : Nat) : Bool := span.start ≤ offset && offset < span.stop

/-- Each byte lies in one of the spans, and in one only. -/
theorem Consecutive.countP_covers {start stop : Nat} {spans : List Span}
    (h : Consecutive start spans stop) (offset : Nat) :
    spans.countP (·.covers offset) = if start ≤ offset ∧ offset < stop then 1 else 0 := by
  induction spans generalizing start with
  | nil =>
    obtain rfl : start = stop := h
    rw [List.countP_nil, if_neg (by omega)]
  | cons span rest ih =>
    obtain ⟨rfl, hle, hrest⟩ := h
    have hlast := hrest.le
    rw [List.countP_cons, ih hrest]
    simp only [Span.covers, Bool.and_eq_true, decide_eq_true_eq]
    split <;> split <;> split <;> omega

namespace Tree

variable {tree : Tree}

theorem node_ext {a b : Node tree} (h : a.id = b.id) : a = b := by
  obtain ⟨i, hi⟩ := a
  obtain ⟨j, hj⟩ := b
  simp only at h
  subst h
  rfl

theorem node_eq_ok {id : NodeId} (h : id < tree.nodes.size) : tree.node id = .ok ⟨id, h⟩ := by
  rw [node, dif_pos h]

theorem getElem?_eq_data (node : Node tree) : tree.nodes[node.id]? = some node.data :=
  Array.getElem?_eq_getElem node.id_lt

theorem nodesAt_map_id (nodes : List (Node tree)) :
    tree.nodesAt (nodes.map (·.id)) = .ok nodes := by
  induction nodes with
  | nil => rfl
  | cons node rest ih =>
    rw [nodesAt] at ih ⊢
    rw [List.map_cons, List.mapM_cons, node_eq_ok node.id_lt, ih]
    rfl

theorem map_id_of_nodesAt {ids : List NodeId} {nodes : List (Node tree)}
    (h : tree.nodesAt ids = .ok nodes) : ids = nodes.map (·.id) := by
  induction ids generalizing nodes with
  | nil =>
    cases h
    rfl
  | cons id rest ih =>
    rw [nodesAt, List.mapM_cons, bind_eq_ok_iff] at h
    obtain ⟨node, hnode, h⟩ := h
    obtain ⟨others, hothers, h⟩ := bind_eq_ok_iff.1 h
    cases h
    rw [List.map_cons, ← ih hothers]
    rw [Tree.node] at hnode
    split at hnode
    · cases hnode
      rfl
    · cases hnode

theorem Valid.nodeSound (h : tree.Valid) (node : Node tree) : tree.NodeSound node.id node.data :=
  (valid_iff.1 h).2.2.1 node.id node.data (getElem?_eq_data node)

theorem Valid.span_le (h : tree.Valid) (node : Node tree) : node.span.start ≤ node.span.stop :=
  (Utf8.isRange_iff.1 (h.nodeSound node).range).1

theorem Valid.text_eq (h : tree.Valid) (node : Node tree) : node.text =
    .ok (String.ofList (Utf8.slice node.span.start node.span.stop tree.source.toList)) := by
  have hrange : tree.covers node.span = true := (h.nodeSound node).range
  rw [Node.text, if_pos hrange]

theorem Chained.exists_nodes (h : tree.Valid) {id : NodeId} {start stop : Nat} {ids : List NodeId}
    (hc : tree.Chained id start ids stop) :
    ∃ nodes, tree.nodesAt ids = .ok nodes ∧ nodes.map (·.id) = ids ∧
      (∀ node ∈ nodes, node.data.parent = some id) ∧
      Consecutive start (nodes.map (·.span)) stop := by
  induction ids generalizing start with
  | nil => exact ⟨[], rfl, rfl, by simp, hc⟩
  | cons child rest ih =>
    obtain ⟨data, hdata, hparent, hstart, hrest⟩ := hc
    obtain ⟨hlt, rfl⟩ := Array.getElem?_eq_some_iff.1 hdata
    obtain ⟨nodes, hnodes, hids, hparents, hspans⟩ := ih hrest
    refine ⟨⟨child, hlt⟩ :: nodes, ?_, ?_, ?_, ?_⟩
    · rw [nodesAt, List.mapM_cons, node_eq_ok hlt]
      rw [nodesAt] at hnodes
      rw [hnodes]
      rfl
    · rw [List.map_cons, hids]
    · exact List.forall_mem_cons.2 ⟨hparent, hparents⟩
    · exact ⟨hstart, h.span_le ⟨child, hlt⟩, hspans⟩

/-- The children of a node of a valid tree. If there are any, they cover what the node covers. -/
theorem Valid.exists_children (h : tree.Valid) (node : Node tree) :
    ∃ children, node.children = .ok children ∧ children.map (·.id) = node.data.children ∧
      (∀ child ∈ children, child.data.parent = some node.id) ∧
      (children ≠ [] → Consecutive node.span.start (children.map (·.span)) node.span.stop) := by
  obtain ⟨stop, hchained, hstop⟩ := (h.nodeSound node).children
  obtain ⟨children, hok, hids, hparents, hspans⟩ := hchained.exists_nodes h
  refine ⟨children, hok, hids, hparents, fun hne => ?_⟩
  have hterminal : node.data.kind.isTerminal = false := by
    cases ht : node.data.kind.isTerminal with
    | false => rfl
    | true =>
      rw [((h.nodeSound node).leaf ht).1, List.map_eq_nil_iff] at hids
      exact absurd hids hne
  rw [hstop hterminal] at hspans
  exact hspans

theorem Valid.parent_of_root (h : tree.Valid) {node : Node tree} (hr : node.id = NodeId.root) :
    node.data.parent = none := by
  obtain ⟨-, ⟨root, hroot, hnone, -⟩, -, -⟩ := valid_iff.1 h
  have hdata := getElem?_eq_data node
  rw [hr, hroot] at hdata
  rw [← Option.some.inj hdata]
  exact hnone

/-- What a slot holds are nodes that point back to the node whose slot it is. -/
theorem Valid.exists_slotted (h : tree.Valid) (node : Node tree) {ids : List NodeId}
    (hm : ids ∈ node.data.slots) :
    ∃ nodes, tree.nodesAt ids = .ok nodes ∧ nodes.map (·.id) = ids ∧
      ∀ held ∈ nodes, held.data.parent = some node.id := by
  have hsound := h.nodeSound node
  obtain ⟨i, hi, rfl⟩ := List.getElem_of_mem hm
  have hlt : i < node.data.kind.slots.length := by rwa [← hsound.slots_length]
  have hzip : (node.data.kind.slots[i], node.data.slots[i]) ∈
      node.data.kind.slots.zip node.data.slots := by
    rw [← List.getElem_zip (h := by rw [List.length_zip]; omega)]
    exact List.getElem_mem _
  have hheld := (hsound.slots _ _ hzip).held
  generalize node.data.slots[i] = ids at hheld
  induction ids with
  | nil => exact ⟨[], rfl, rfl, by simp⟩
  | cons id rest ih =>
    obtain ⟨⟨data, hdata, hparent, -⟩, hrest⟩ := List.forall_mem_cons.1 hheld
    obtain ⟨nodes, -, hids, hparents⟩ := ih hrest
    obtain ⟨hlt, rfl⟩ := Array.getElem?_eq_some_iff.1 hdata
    have hall : (⟨id, hlt⟩ :: nodes : List (Node tree)).map (·.id) = id :: rest := by
      rw [List.map_cons, hids]
    refine ⟨⟨id, hlt⟩ :: nodes, ?_, hall, List.forall_mem_cons.2 ⟨hparent, hparents⟩⟩
    rw [← hall]
    exact tree.nodesAt_map_id _

end Tree

namespace Node

variable {tree : Tree} (node : Node tree)

def hold (slot : Slot) (arity : Arity) (nodes : List (Node tree)) :
    Except TreeError (SlotValue tree) :=
  match arity, nodes with
  | .many, nodes => .ok (.list nodes)
  | .optional, [] => .ok (.single none)
  | _, [held] => .ok (.single (some held))
  | arity, nodes => node.malformed (some slot) (.heldCount nodes.length arity)

/-- Where the nodes of a slot are known, reading the slot only counts them. -/
theorem slotValue_eq_hold {slot : Slot} {position : Nat} {decl : SlotDecl}
    {nodes : List (Node tree)} (hindex : node.kind.slotIndex? slot = some position)
    (hslot : node.slotAt position = .ok (decl, nodes.map (·.id))) :
    node.slotValue slot = node.hold slot decl.arity nodes := by
  have hnodes := tree.nodesAt_map_id nodes
  obtain ⟨declared, arity, rest⟩ := decl
  rw [slotValue, hindex]
  simp only [hslot, bind, Except.bind]
  cases arity with
  | many =>
    simp only [hnodes]
    rfl
  | one =>
    rcases nodes with _ | ⟨held, _ | ⟨second, others⟩⟩
    · rfl
    · simp only [List.map_cons, List.map_nil, Tree.node_eq_ok held.id_lt]
      rfl
    · simp [hold]
  | optional =>
    rcases nodes with _ | ⟨held, _ | ⟨second, others⟩⟩
    · rfl
    · simp only [List.map_cons, List.map_nil, Tree.node_eq_ok held.id_lt]
      rfl
    · simp [hold]

end Node

namespace Tree

variable {tree : Tree}

/-- A declared slot of a node can be read, and holds nodes that point back to the node. -/
theorem Valid.exists_slotValue (h : tree.Valid) (node : Node tree) {slot : Slot}
    (hs : node.kind.declares slot = true) :
    ∃ value, node.slotValue slot = .ok value ∧
      ∀ held ∈ value.nodes, held.data.parent = some node.id := by
  obtain ⟨position, hposition⟩ := Option.isSome_iff_exists.1 (NodeKind.slotIndex?_isSome_iff.2 hs)
  obtain ⟨hlt, hslot⟩ := NodeKind.slotIndex?_eq_some_iff.1 hposition
  have hsound := h.nodeSound node
  have hstored : position < node.data.slots.length := by
    rw [hsound.slots_length]
    exact hlt
  obtain ⟨nodes, -, hids, hparents⟩ := h.exists_slotted node (List.getElem_mem hstored)
  have hat : node.slotAt position = .ok (node.kind.slots[position], nodes.map (·.id)) := by
    rw [Node.slotAt, List.getElem?_eq_getElem hlt, List.getElem?_eq_getElem hstored, hids]
  have hzip : (node.kind.slots[position], nodes.map (·.id)) ∈
      node.data.kind.slots.zip node.data.slots := by
    rw [hids]
    have hboth : position < (node.data.kind.slots.zip node.data.slots).length := by
      rw [List.length_zip]
      exact Nat.lt_min.2 ⟨hlt, hstored⟩
    have hget := List.getElem_mem hboth
    rwa [List.getElem_zip] at hget
  have harity := (hsound.slots _ _ hzip).arity
  rw [List.length_map] at harity
  rw [node.slotValue_eq_hold hposition hat]
  cases hdecl : node.kind.slots[position].arity with
  | many => exact ⟨.list nodes, rfl, hparents⟩
  | one =>
    rw [hdecl] at harity
    obtain ⟨held, rfl⟩ := List.length_eq_one_iff.1 (by simpa [Arity.accepts] using harity)
    exact ⟨.single (some held), rfl, by simpa [SlotValue.nodes] using hparents⟩
  | optional =>
    rw [hdecl] at harity
    rcases nodes with _ | ⟨held, _ | ⟨second, others⟩⟩
    · exact ⟨.single none, rfl, by simp [SlotValue.nodes]⟩
    · exact ⟨.single (some held), rfl, by simpa [SlotValue.nodes] using hparents⟩
    · simp [Arity.accepts] at harity

theorem id_of_root {root : Node tree} (h : tree.root = .ok root) : root.id = NodeId.root := by
  rw [Tree.root, node] at h
  split at h
  · cases h
    rfl
  · cases h

theorem Valid.exists_root (h : tree.Valid) :
    ∃ root, tree.root = .ok root ∧ root.span = ⟨0, tree.sourceSize⟩ := by
  obtain ⟨-, ⟨data, hdata, -, hspan⟩, -, -⟩ := valid_iff.1 h
  obtain ⟨hlt, rfl⟩ := Array.getElem?_eq_some_iff.1 hdata
  exact ⟨⟨NodeId.root, hlt⟩, node_eq_ok hlt, hspan⟩

end Tree

end CodeTree

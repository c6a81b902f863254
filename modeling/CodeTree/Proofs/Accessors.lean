import CodeTree.Concrete.Lowering
import CodeTree.Proofs.Arenas
import CodeTree.Proofs.Endings
import CodeTree.Proofs.Positions
import CodeTree.Proofs.SlotDistribution
import CodeTree.Proofs.SlotReads

/-!
# Reading accepted trees

Trees come from stored forms, from building events and from lowering, and each way ends with
validation. Whoever reads a node looks up ids, cuts the source and searches the line table without
further checks. None of this can fail on a tree that was accepted, not even at nodes that are not
reached from the root (`Accepted.inBounds`). The checks do not ask whether the parent of a node
exists: it does because the node is owned, and what owns it is its parent.
-/

namespace CodeTree

variable {tree : Tree}

/-- Whether a tree may be the result of reading a stored form, of building or of lowering. -/
inductive Tree.Accepted : Tree → Prop where
  | stored {json : Json} {tree : Tree} (h : Tree.ofJson json = .ok tree) : Accepted tree
  | built {language : Language} {events : List Event} {tree : Tree}
    (h : Tree.ofEvents language events = .ok tree) : Accepted tree
  | lowered {language : Language} {source : String} {points : Bool} {root : Concrete} {tree : Tree}
    (h : Concrete.lower language source points root = .ok tree) : Accepted tree

/-- Whether what is read of a node exists. -/
structure Node.InBounds (node : Node tree) : Prop where
  start_le : node.span.start ≤ node.span.stop
  start_valid : String.Pos.Raw.IsValid tree.source ⟨node.span.start⟩
  stop_valid : String.Pos.Raw.IsValid tree.source ⟨node.span.stop⟩
  text : ∃ before text after, tree.source = before ++ text ++ after ∧
    before.utf8ByteSize = node.span.start ∧ text.utf8ByteSize = node.span.length ∧
    node.text = .ok text
  parent : ∃ parent, node.parent = .ok parent
  children : ∃ children, node.children = .ok children
  namedChildren : ∃ named, node.namedChildren = .ok named
  parentSlot : ∃ slot, node.parentSlot = .ok slot
  slotValue : ∀ slot, node.kind.declares slot = true → ∃ value, node.slotValue slot = .ok value
  reads : ∀ decl ∈ node.kind.slots, ∃ nodes, node.Reads decl nodes
  filledSlots : ∀ entry ∈ node.filledSlots, ∃ value, entry.2 = .ok value
  fields : ∀ view : View tree, view.node = node →
    ∀ entry ∈ view.fields, ∃ field, entry.2 = .ok field
  /-- The search of the line table finds an entry, and it is not behind the offset. -/
  location : ∀ offset ∈ [node.span.start, node.span.stop], ∃ line start,
    countUpTo tree.lineStarts offset 0 tree.lineStarts.size = line + 1 ∧
    tree.lineStarts[line]? = some start ∧ start ≤ offset ∧ line ≤ offset
  owner : node.id ≠ NodeId.root → ∃ parent, node.HasParent parent ∧
    (parent.HasChild node ∨
      parent.kind = .special .variationPoint ∧ parent.InSlot .alternatives node)

namespace Tree

open Node

theorem Accepted.valid (h : tree.Accepted) : tree.Valid := by
  have hfinish : ∀ {builder : Builder}, builder.finish = .ok tree → tree.Valid := by
    intro builder h
    obtain ⟨-, -, -, hvalid, -⟩ := Builder.finish_eq_ok_iff.1 h
    exact hvalid
  cases h with
  | stored h => exact (ofJson_eq_ok_iff.1 h).2
  | built h => exact hfinish h
  | lowered h => exact hfinish h

theorem Valid.exists_text (h : tree.Valid) (node : Node tree) :
    ∃ before text after, tree.source = before ++ text ++ after ∧
      before.utf8ByteSize = node.span.start ∧ text.utf8ByteSize = node.span.length ∧
      node.text = .ok text := by
  obtain ⟨before, text, after, hsource, hbefore, htext⟩ :=
    Utf8.exists_split (h.nodeSound node).range
  refine ⟨.ofList before, .ofList text, .ofList after, ?_, ?_, ?_, ?_⟩
  · rw [← String.ofList_append, ← String.ofList_append, List.append_assoc, ← hsource,
      String.ofList_toList]
  · rw [← Utf8.size_eq_utf8ByteSize]
    exact hbefore
  · have hstop : Utf8.size before + Utf8.size text = node.span.stop := htext
    have hstart : Utf8.size before = node.span.start := hbefore
    rw [← Utf8.size_eq_utf8ByteSize, Span.length]
    omega
  · rw [h.text_eq, hsource]
    exact congrArg (fun text => Except.ok (String.ofList text)) (Utf8.slice_of_split hbefore htext)

theorem exists_location (tree : Tree) (offset : Nat) :
    ∃ line start, countUpTo tree.lineStarts offset 0 tree.lineStarts.size = line + 1 ∧
      tree.lineStarts[line]? = some start ∧ start ≤ offset ∧ line ≤ offset := by
  obtain ⟨line, start, hcount, hread, hle, hline, -⟩ := tree.exists_lineStart offset
  refine ⟨line, start, hcount, hread, hle, ?_⟩
  calc line = (tree.bytes.take offset).count newline := hline
    _ ≤ (tree.bytes.take offset).length := List.count_le_length
    _ ≤ offset := List.length_take_le _ _

theorem Valid.hasChild_or_inSlot (h : tree.Valid) {node parent : Node tree}
    (hp : node.HasParent parent) : parent.HasChild node ∨
      parent.kind = .special .variationPoint ∧ parent.InSlot .alternatives node := by
  rcases List.mem_append.1 (h.owns_iff.2 hp) with hchild | hheld
  · exact .inl hchild
  · obtain ⟨⟨decl, ids⟩, hzip, hm⟩ := List.mem_flatMap.1 hheld
    simp only at hm
    split at hm
    · next halternatives =>
      obtain ⟨hslot, hkind⟩ := holdsAlternatives_iff.1 halternatives
      obtain ⟨position, hposition⟩ := List.mem_iff_getElem?.1 hzip
      obtain ⟨hdecl, hids⟩ := List.getElem?_zip_eq_some.1 hposition
      obtain ⟨nodes, hstores⟩ := h.exists_stores parent hdecl
      obtain rfl := Option.some.inj (hids.symm.trans hstores.stored)
      obtain ⟨value, hvalue, -, rfl⟩ := hstores.exists_slotValue
      obtain ⟨held, hheld, hid⟩ := List.mem_map.1 hm
      rw [hslot] at hvalue
      rw [← node_ext hid]
      exact .inr ⟨hkind, value, hvalue, hheld⟩
    · cases hm

theorem Valid.exists_parent_eq_ok (h : tree.Valid) (node : Node tree) :
    ∃ parent, node.parent = .ok parent := by
  by_cases hr : node.id = NodeId.root
  · refine ⟨none, ?_⟩
    rw [Node.parent, h.parent_of_root hr]
  · obtain ⟨parent, hp⟩ := h.exists_parent hr
    exact ⟨some parent, hp⟩

theorem Valid.filledSlots_eq_ok (h : tree.Valid) (node : Node tree) :
    ∀ entry ∈ node.filledSlots, ∃ value, entry.2 = .ok value := by
  have hread : ∀ decl ∈ node.kind.slots, ∃ value, node.slotValue decl.slot = .ok value := by
    intro decl hdecl
    obtain ⟨position, nodes, hstores⟩ := h.readable node hdecl
    obtain ⟨value, hvalue, -⟩ := hstores.exists_slotValue
    exact ⟨value, hvalue⟩
  obtain ⟨filled, hfilled, -⟩ := exists_filledSlots hread
  intro entry hm
  rw [hfilled] at hm
  obtain ⟨read, -, rfl⟩ := List.mem_map.1 hm
  exact ⟨read.2, rfl⟩

theorem Valid.fields_eq_ok (h : tree.Valid) (view : View tree) :
    ∀ entry ∈ view.fields, ∃ field, entry.2 = .ok field := by
  intro entry hm
  obtain ⟨decl, hdecl, rfl⟩ := List.mem_map.1 hm
  rw [view.slots_eq] at hdecl
  obtain ⟨position, nodes, hstores⟩ := h.readable view.node hdecl
  obtain ⟨field, hfield, -⟩ := hstores.exists_project
  exact ⟨field, (view.access_eq_project hstores).trans hfield⟩

theorem Valid.inBounds_node (h : tree.Valid) (node : Node tree) : node.InBounds := by
  have hnode := h.coherent_node node
  obtain ⟨children, hchildren, -⟩ := h.exists_children node
  refine {
    start_le := hnode.ordered
    start_valid := hnode.start_valid
    stop_valid := hnode.stop_valid
    text := h.exists_text node
    parent := h.exists_parent_eq_ok node
    children := ⟨children, hchildren⟩
    namedChildren := ?_
    parentSlot := ?_
    slotValue := fun slot hs => ?_
    reads := fun decl hd => ?_
    filledSlots := h.filledSlots_eq_ok node
    fields := fun view _ => h.fields_eq_ok view
    location := fun offset _ => tree.exists_location offset
    owner := fun hne => ?_ }
  · rw [namedChildren, hchildren]
    exact ⟨_, rfl⟩
  · obtain ⟨parent, hp⟩ := h.exists_parent_eq_ok node
    rw [parentSlot, hp]
    cases parent <;> exact ⟨_, rfl⟩
  · obtain ⟨value, hvalue, -⟩ := h.exists_slotValue node hs
    exact ⟨value, hvalue⟩
  · obtain ⟨position, nodes, hstores⟩ := h.readable node hd
    exact ⟨nodes, hstores.reads⟩
  · obtain ⟨parent, hp⟩ := h.exists_parent hne
    exact ⟨parent, hp, h.hasChild_or_inSlot hp⟩

/-- Every id below the size of an accepted tree is a node, and all that is read of it exists. -/
theorem Accepted.inBounds (tree : Tree) (h : tree.Accepted) (id : NodeId) (hlt : id < tree.size) :
    ∃ node, tree.node id = .ok node ∧ node.id = id ∧ node.InBounds :=
  ⟨⟨id, hlt⟩, node_eq_ok hlt, rfl, h.valid.inBounds_node _⟩

/-- A stored tree with nodes that are not reached from the root: each of two nodes is the parent of
the other, the one through its children and the other through its alternatives. -/
def detachedAlternative : Tree :=
  .ofParts .python "é\nx" #[⟨.special .parseError, ⟨0, 4⟩, none, [1], [[1]]⟩,
    ⟨.special .blot, ⟨0, 4⟩, some 0, [], []⟩,
    ⟨.special .parseError, ⟨3, 3⟩, some 3, [3], [[3]]⟩,
    ⟨.special .variationPoint, ⟨3, 3⟩, some 2, [4], [[4], [2]]⟩,
    ⟨.special .errorTree, ⟨3, 3⟩, some 3, [], []⟩]

theorem inBounds_detachedAlternative :
    ofJson detachedAlternative.toJson = .ok detachedAlternative ∧ 2 < detachedAlternative.size ∧
      ∃ node, detachedAlternative.node 2 = .ok node ∧ node.text = .ok "" ∧
        node.OwnAncestor ∧ ∃ parent, node.HasParent parent ∧
          parent.InSlot .alternatives node := by
  have hread : ofJson detachedAlternative.toJson = .ok detachedAlternative := by decide +kernel
  have hlt : 2 < detachedAlternative.size := by decide
  let cut : Node detachedAlternative := ⟨2, by decide⟩
  let point : Node detachedAlternative := ⟨3, by decide⟩
  have hup : cut.HasParent point := hasParent_iff.2 rfl
  have hdown : point.HasParent cut := hasParent_iff.2 rfl
  obtain ⟨node, hnode, hid, hbounds⟩ :=
    Accepted.inBounds detachedAlternative (.stored hread) 2 hlt
  obtain rfl : node = cut := node_ext hid
  obtain ⟨parent, hp, hplace⟩ := hbounds.owner (by decide)
  obtain rfl : parent = point := hp.unique hup
  refine ⟨hread, hlt, cut, hnode, by decide +kernel, .tail (.single hup) hdown, point, hup, ?_⟩
  rcases hplace with hchild | ⟨-, hslot⟩
  · have hno : cut.id ∉ point.data.children := by decide
    exact absurd hchild hno
  · exact hslot

end Tree

end CodeTree

import CodeTree.Proofs.SlotReads
import CodeTree.Proofs.StoredRoundTrip
import CodeTree.Query.Parts

/-!
# The slots of trees that were read

Of a slot it is checked how many nodes it holds and that each of them is a child, or an alternative.
Neither the order of the nodes nor whether one is named twice is looked at. So the content of a slot
can be replaced by any list of children that its arity accepts (`valid_withSlot_iff`), and reading
the slot then gives that list. Only alternatives are counted among the owners, which is why no slot
of a variation point names a node twice.
-/

namespace CodeTree

theorem flatMap_zip_set {α β γ : Type} {f : α × β → List γ} {xs : List α} (ys : List β) {i : Nat}
    {x : α} (hx : xs[i]? = some x) (hf : ∀ y, f (x, y) = []) (y : β) :
    (xs.zip (ys.set i y)).flatMap f = (xs.zip ys).flatMap f := by
  induction xs generalizing ys i with
  | nil => rfl
  | cons first rest ih =>
    cases ys with
    | nil => rfl
    | cons head tail =>
      cases i with
      | zero =>
        obtain rfl : first = x := by simpa using hx
        simp only [List.set_cons_zero, List.zip_cons_cons, List.flatMap_cons, hf]
      | succ i =>
        rw [List.set_cons_succ, List.zip_cons_cons, List.zip_cons_cons, List.flatMap_cons,
          List.flatMap_cons, ih tail (by simpa using hx)]

namespace NodeData

variable {data : NodeData} {position : Nat} {decl : SlotDecl} {ids : List NodeId}

def withSlot (data : NodeData) (position : Nat) (ids : List NodeId) : NodeData :=
  { data with slots := data.slots.set position ids }

/-- Only the slot of the alternatives says what a node owns. -/
theorem owned_withSlot (hd : data.kind.slots[position]? = some decl)
    (ha : holdsAlternatives data.kind decl.slot = false) :
    (data.withSlot position ids).owned = data.owned := by
  have hnone : ∀ others : List NodeId,
      (fun (entry : SlotDecl × List NodeId) =>
        if holdsAlternatives data.kind entry.1.slot then entry.2 else []) (decl, others) = [] := by
    intro others
    simp only [ha]
    rfl
  exact congrArg (data.children ++ ·) (flatMap_zip_set data.slots hd hnone ids)

end NodeData

namespace Tree

variable {tree : Tree}

/-- The same tree with other nodes in one slot of one node. -/
def withSlot (tree : Tree) (id : NodeId) (position : Nat) (ids : List NodeId) : Tree :=
  .ofParts tree.language tree.source (tree.nodes.modify id (·.withSlot position ids))

theorem getElem?_withSlot (id : NodeId) (position : Nat) (ids : List NodeId) (i : Nat) :
    (tree.withSlot id position ids).nodes[i]? =
      tree.nodes[i]?.map fun data => if i = id then data.withSlot position ids else data := by
  have hget : (tree.withSlot id position ids).nodes[i]? =
      if id = i then tree.nodes[i]?.map (·.withSlot position ids) else tree.nodes[i]? :=
    Array.getElem?_modify
  rw [hget]
  by_cases hi : i = id
  · simp [hi]
  · simp [hi, Ne.symm hi]

/-- Whether the nodes of a tree have the same parents and spans in another tree, which is all that a
check of one node looks at in others. -/
def Linked (a b : Tree) : Prop :=
  ∀ (id : NodeId) data, a.nodes[id]? = some data → ∃ other, b.nodes[id]? = some other ∧
    other.parent = data.parent ∧ other.span = data.span

theorem linked_withSlot (tree : Tree) (id : NodeId) (position : Nat) (ids : List NodeId) :
    Linked tree (tree.withSlot id position ids) := by
  intro i data hdata
  rw [getElem?_withSlot, hdata]
  refine ⟨_, rfl, ?_⟩
  split
  · exact ⟨rfl, rfl⟩
  · exact ⟨rfl, rfl⟩

section

variable {a b : Tree} {id : NodeId} {data : NodeData}

theorem Linked.chained (h : Linked a b) {start stop : Nat} {ids : List NodeId}
    (hc : a.Chained id start ids stop) : b.Chained id start ids stop := by
  induction ids generalizing start with
  | nil => exact hc
  | cons child rest ih =>
    obtain ⟨data, hdata, hparent, hstart, hrest⟩ := hc
    obtain ⟨other, hother, hsame, hspan⟩ := h child data hdata
    refine ⟨other, hother, hsame.trans hparent, ?_, ?_⟩
    · rw [hspan]
      exact hstart
    · rw [hspan]
      exact ih hrest

theorem Linked.slotSound (h : Linked a b) {decl : SlotDecl} {ids : List NodeId}
    (hs : a.SlotSound id data decl ids) : b.SlotSound id data decl ids := by
  refine ⟨hs.arity, fun slotted hm => ?_⟩
  obtain ⟨held, hheld, hparent, hplace⟩ := hs.held slotted hm
  obtain ⟨other, hother, hsame, hspan⟩ := h slotted held hheld
  refine ⟨other, hother, hsame.trans hparent, ?_⟩
  rw [hspan]
  exact hplace

theorem Linked.nodeSound (h : Linked a b) (hlanguage : a.language = b.language)
    (hsource : a.source = b.source) (hs : a.NodeSound id data) : b.NodeSound id data := by
  obtain ⟨stop, hchained, hstop⟩ := hs.children
  refine ⟨fun language hl => (hs.language language hl).trans hlanguage, ?_, hs.leaf,
    ⟨stop, h.chained hchained, hstop⟩, hs.slots_length,
    fun decl ids hm => h.slotSound (hs.slots decl ids hm)⟩
  have hrange := hs.range
  rw [covers, hsource] at hrange
  exact hrange

end

variable {position : Nat} {decl : SlotDecl} {ids : List NodeId}

theorem NodeSound.withSlot {id : NodeId} {data : NodeData} (h : tree.NodeSound id data)
    (hd : data.kind.slots[position]? = some decl) (hs : tree.SlotSound id data decl ids) :
    tree.NodeSound id (data.withSlot position ids) := by
  refine ⟨h.language, h.range, fun ht => ?_, h.children, ?_, fun other others hm => ?_⟩
  · have hterminal : data.kind.isTerminal = true := ht
    rw [NodeKind.slots_of_isTerminal hterminal] at hd
    cases hd
  · exact (List.length_set ..).trans h.slots_length
  · obtain ⟨i, hi⟩ := List.mem_iff_getElem?.1 hm
    obtain ⟨hother, hstored⟩ := List.getElem?_zip_eq_some.1 hi
    have hset : (data.slots.set position ids)[i]? = some others := hstored
    by_cases hp : position = i
    · subst hp
      obtain rfl : decl = other := Option.some.inj (hd.symm.trans hother)
      rw [List.getElem?_set_self'] at hset
      obtain ⟨_, -, rfl⟩ := Option.map_eq_some_iff.1 hset
      exact ⟨hs.arity, hs.held⟩
    · rw [List.getElem?_set_ne hp] at hset
      have hslot := h.slots other others
        (List.mem_of_getElem? (List.getElem?_zip_eq_some.2 ⟨hother, hset⟩))
      exact ⟨hslot.arity, hslot.held⟩

theorem owned_withSlot (node : Node tree) (hd : node.kind.slots[position]? = some decl)
    (ha : NodeData.holdsAlternatives node.kind decl.slot = false) :
    (tree.withSlot node.id position ids).owned = tree.owned := by
  have hnodes : (tree.withSlot node.id position ids).nodes.toList.map NodeData.owned =
      tree.nodes.toList.map NodeData.owned := by
    apply List.ext_getElem?
    intro i
    rw [List.getElem?_map, List.getElem?_map, Array.getElem?_toList, Array.getElem?_toList,
      getElem?_withSlot, Option.map_map]
    by_cases hi : i = node.id
    · subst hi
      rw [getElem?_eq_data, Option.map_some, Option.map_some, Function.comp_apply, if_pos rfl,
        NodeData.owned_withSlot hd ha]
    · simp only [if_neg hi]
      rfl
  rw [owned, owned, List.flatMap, List.flatMap, hnodes]

/-- Which nodes may stand in a slot of a valid tree. -/
theorem Valid.valid_withSlot_iff (h : tree.Valid) (node : Node tree)
    (hd : node.kind.slots[position]? = some decl)
    (ha : NodeData.holdsAlternatives node.kind decl.slot = false) :
    (tree.withSlot node.id position ids).Valid ↔
      decl.arity.accepts ids.length = true ∧ ∀ id ∈ ids, id ∈ node.data.children := by
  have hlinked := linked_withSlot tree node.id position ids
  constructor
  · intro hv
    have hdata : (tree.withSlot node.id position ids).nodes[node.id]? =
        some (node.data.withSlot position ids) := by
      rw [getElem?_withSlot, getElem?_eq_data, Option.map_some, if_pos rfl]
    have hstored : position < node.data.slots.length := by
      rw [(h.nodeSound node).slots_length]
      exact (List.getElem?_eq_some_iff.1 hd).1
    have hset : (node.data.withSlot position ids).slots[position]? = some ids :=
      List.getElem?_set_self hstored
    have hslot := ((valid_iff.1 hv).2.2.1 node.id _ hdata).slots decl ids
      (List.mem_of_getElem? (List.getElem?_zip_eq_some.2 ⟨hd, hset⟩))
    refine ⟨hslot.arity, fun id hm => ?_⟩
    obtain ⟨_, -, -, hplace⟩ := hslot.held id hm
    have hchildren : NodeData.holdsAlternatives (node.data.withSlot position ids).kind decl.slot =
        false := ha
    rw [hchildren] at hplace
    exact hplace
  · rintro ⟨harity, hids⟩
    obtain ⟨hsize, ⟨root, hroot, hnone, hspan⟩, hnodes, howners⟩ := valid_iff.1 h
    have hlength : (tree.withSlot node.id position ids).nodes.size = tree.nodes.size :=
      Array.size_modify
    have hslot : tree.SlotSound node.id node.data decl ids := by
      refine ⟨harity, fun id hm => ?_⟩
      obtain ⟨held, hid, hparent⟩ := h.exists_owned node (List.mem_append_left _ (hids id hm))
      have hkind : NodeData.holdsAlternatives node.data.kind decl.slot = false := ha
      refine ⟨held.data, ?_, Node.hasParent_iff.1 hparent, ?_⟩
      · rw [← hid]
        exact getElem?_eq_data held
      · rw [hkind]
        exact hids id hm
    refine valid_iff.2 ⟨?_, ?_, fun i data hdata => ?_, fun i hi hr => ?_⟩
    · rw [size, hlength]
      exact hsize
    · obtain ⟨other, hother, hparent, hsame⟩ := hlinked NodeId.root root hroot
      exact ⟨other, hother, hparent.trans hnone, hsame.trans hspan⟩
    · rw [getElem?_withSlot] at hdata
      obtain ⟨old, hold, rfl⟩ := Option.map_eq_some_iff.1 hdata
      have hsound := hlinked.nodeSound rfl rfl (hnodes i old hold)
      split
      · next hi =>
        subst hi
        obtain rfl : node.data = old := Option.some.inj ((getElem?_eq_data node).symm.trans hold)
        exact hsound.withSlot hd (hlinked.slotSound hslot)
      · exact hsound
    · rw [owned_withSlot node hd ha]
      exact howners i (hlength ▸ hi) hr

theorem exists_slotValue_withSlot (node : Node tree)
    (hd : node.kind.slots[position]? = some decl)
    (hv : (tree.withSlot node.id position ids).Valid)
    {other : Node (tree.withSlot node.id position ids)} (hid : other.id = node.id) :
    ∃ value, other.slotValue decl.slot = .ok value ∧ value.nodes.map (·.id) = ids := by
  have hdata : other.data = node.data.withSlot position ids := by
    have hget := getElem?_eq_data other
    rw [hid, getElem?_withSlot, getElem?_eq_data, Option.map_some, if_pos rfl] at hget
    exact (Option.some.inj hget).symm
  have hkind : other.kind = node.kind := by rw [Node.kind, hdata]; rfl
  rw [← hkind] at hd
  obtain ⟨nodes, hstores⟩ := hv.exists_stores other hd
  obtain ⟨value, hvalue, -, rfl⟩ := hstores.exists_slotValue
  refine ⟨value, hvalue, ?_⟩
  have hstored := hstores.stored
  rw [hdata] at hstored
  have hset : (node.data.slots.set position ids)[position]? = _ := hstored
  rw [List.getElem?_set_self'] at hset
  obtain ⟨_, -, hsame⟩ := Option.map_eq_some_iff.1 hset
  exact hsame.symm

theorem Valid.slotSound_of_stores (h : tree.Valid) {node : Node tree} {nodes : List (Node tree)}
    (hs : node.Stores position decl nodes) :
    tree.SlotSound node.id node.data decl (nodes.map (·.id)) :=
  (h.nodeSound node).slots _ _
    (List.mem_of_getElem? (List.getElem?_zip_eq_some.2 ⟨hs.declared, hs.stored⟩))

theorem Valid.hasChild_of_slotValue (h : tree.Valid) {node : Node tree} {slot : Slot}
    {value : SlotValue tree} (hv : node.slotValue slot = .ok value)
    (ha : NodeData.holdsAlternatives node.kind slot = false) {held : Node tree}
    (hm : held ∈ value.nodes) : node.HasChild held := by
  obtain ⟨decl, hdecl⟩ : ∃ decl, node.kind.slot? slot = some decl := by
    rw [← Option.isSome_iff_exists]
    cases hs : node.kind.declares slot with
    | true => exact hs
    | false =>
      rw [Node.slotValue_undeclared hs] at hv
      cases hv
  obtain ⟨hd, rfl⟩ := NodeKind.slot?_eq_some_iff.1 hdecl
  obtain ⟨position, nodes, hstores⟩ := h.readable node hd
  obtain ⟨other, hother, -, rfl⟩ := hstores.exists_slotValue
  obtain rfl : other = value := Except.ok.inj (hother.symm.trans hv)
  obtain ⟨_, -, -, hplace⟩ :=
    (h.slotSound_of_stores hstores).held held.id (List.mem_map_of_mem hm)
  have hkind : NodeData.holdsAlternatives node.data.kind decl.slot = false := ha
  rw [hkind] at hplace
  exact hplace

theorem Valid.nodup_slots (h : tree.Valid) {node : Node tree}
    (hk : node.kind = .special .variationPoint) : node.data.slots.flatten.Nodup := by
  have hsound := h.nodeSound node
  have hkind : node.data.kind = .special .variationPoint := hk
  have hlength := hsound.slots_length
  rw [hkind] at hlength
  obtain ⟨raw, alternatives, hslots⟩ := List.length_eq_two.1 hlength
  have hraw : tree.SlotSound node.id node.data (.one .raw) raw := by
    refine hsound.slots _ _ ?_
    rw [hslots, hkind]
    exact List.mem_cons_self
  obtain ⟨held, rfl⟩ := List.length_eq_one_iff.1 (by simpa [Arity.accepts, SlotDecl.one] using hraw.arity)
  have hchild : held ∈ node.data.children := by
    obtain ⟨_, -, -, hplace⟩ := hraw.held held List.mem_cons_self
    rw [hkind] at hplace
    exact hplace
  have howned := h.nodup_owned node
  have halternatives : node.data.owned = node.data.children ++ (alternatives ++ []) := by
    rw [NodeData.owned, hslots, hkind]
    rfl
  rw [halternatives] at howned
  rw [hslots]
  exact howned.sublist ((List.singleton_sublist.2 hchild).append (List.Sublist.refl _))

/-- Slots of a tree that was read hold nodes below theirs, and those of a variation point hold none
twice. That is all there is to it: any list of children that the arity of a slot accepts may stand
there, in any order and with repetitions, and is what reading the slot then gives. -/
theorem slots_of_ofJson (json : Json) (tree : Tree) (h : ofJson json = .ok tree)
    (node : Node tree) :
    (∀ slot value, node.slotValue slot = .ok value → ∀ held ∈ value.nodes, held.HasParent node ∧
      (NodeData.holdsAlternatives node.kind slot = false → node.HasChild held)) ∧
      (node.kind = .special .variationPoint → node.data.slots.flatten.Nodup) ∧
      ∀ (position : Nat) (decl : SlotDecl), node.kind.slots[position]? = some decl →
        NodeData.holdsAlternatives node.kind decl.slot = false → ∀ ids : List NodeId,
          let edited := tree.withSlot node.id position ids
          (ofJson edited.toJson = .ok edited ↔
            decl.arity.accepts ids.length = true ∧ ∀ id ∈ ids, id ∈ node.data.children) ∧
          (ofJson edited.toJson = .ok edited → ∀ other : Node edited, other.id = node.id →
            ∃ value, other.slotValue decl.slot = .ok value ∧ value.nodes.map (·.id) = ids) := by
  have hvalid := (ofJson_eq_ok_iff.1 h).2
  refine ⟨fun slot value hv held hm => ⟨?_, fun ha => hvalid.hasChild_of_slotValue hv ha hm⟩,
    hvalid.nodup_slots, fun position decl hd ha ids => ⟨?_, fun hread other hid => ?_⟩⟩
  · cases hs : node.kind.declares slot with
    | true =>
      obtain ⟨other, hother, hparents⟩ := hvalid.exists_slotValue node hs
      obtain rfl : other = value := Except.ok.inj (hother.symm.trans hv)
      exact Node.hasParent_iff.2 (hparents held hm)
    | false =>
      rw [Node.slotValue_undeclared hs] at hv
      cases hv
  · have hsource : tree.sourceSize < 2 ^ 64 := sourceSize_lt_of_ofJson h
    have hsize : (tree.withSlot node.id position ids).sourceSize < 2 ^ 64 := hsource
    rw [← hvalid.valid_withSlot_iff node hd ha]
    exact ⟨fun hread => (ofJson_eq_ok_iff.1 hread).2, fun hv => hv.ofJson_toJson hsize⟩
  · exact exists_slotValue_withSlot node hd (ofJson_eq_ok_iff.1 hread).2 hid

def orderedCall : Tree :=
  .ofParts .python "f(a,b)" #[⟨.named .python "call", ⟨0, 6⟩, none, [1, 2], [[1], [2]]⟩,
    ⟨.named .python "identifier", ⟨0, 1⟩, some 0, [], []⟩,
    ⟨.named .python "argument_list", ⟨1, 6⟩, some 0, [3, 4, 5, 6, 7], [[4, 6]]⟩,
    ⟨.special .terminalSymbol, ⟨1, 2⟩, some 2, [], []⟩,
    ⟨.named .python "identifier", ⟨2, 3⟩, some 2, [], []⟩,
    ⟨.special .terminalSymbol, ⟨3, 4⟩, some 2, [], []⟩,
    ⟨.named .python "identifier", ⟨4, 5⟩, some 2, [], []⟩,
    ⟨.special .terminalSymbol, ⟨5, 6⟩, some 2, [], []⟩]

/-- The same tree, where the list of arguments names the second one first and then the other one
twice. -/
def shuffledCall : Tree := orderedCall.withSlot 2 0 [6, 4, 4]

theorem slots_of_orderedCall :
    ofJson orderedCall.toJson = .ok orderedCall ∧ ∃ list : Node orderedCall, list.id = 2 ∧
      (∀ slot value, list.slotValue slot = .ok value → ∀ held ∈ value.nodes, list.HasChild held) ∧
      ofJson shuffledCall.toJson = .ok shuffledCall := by
  have hread : ofJson orderedCall.toJson = .ok orderedCall := by decide +kernel
  let list : Node orderedCall := ⟨2, by decide +kernel⟩
  obtain ⟨hheld, -, hfree⟩ := slots_of_ofJson orderedCall.toJson orderedCall hread list
  have hnever : ∀ slot, NodeData.holdsAlternatives list.kind slot = false := by
    intro slot
    rw [NodeData.holdsAlternatives, Bool.and_eq_false_iff]
    exact .inr (by decide +kernel)
  refine ⟨hread, list, rfl, fun slot value hv held hm => ?_, ?_⟩
  · exact (hheld slot value hv held hm).2 (hnever slot)
  · exact (hfree 0 (.remaining .items) (by decide +kernel) (hnever _) [6, 4, 4]).1.2
      (by decide +kernel)

/-- A tree that was read may hold a node twice in one slot, and not in the order of the children, and
so may list the arguments of a call. -/
theorem ofJson_shuffledCall :
    ofJson shuffledCall.toJson = .ok shuffledCall ∧ ∃ call list : Node shuffledCall,
      call.id = 0 ∧ list.id = 2 ∧ list.data.children = [3, 4, 5, 6, 7] ∧
      list.data.slots = [[6, 4, 4]] ∧ ¬list.data.slots.flatten.Nodup ∧
      ¬[6, 4, 4].Sublist list.data.children ∧
      (list.slotValue .items).map (·.nodes.map (·.id)) = .ok [6, 4, 4] ∧
      (list.many .items).map (·.map (·.id)) = .ok [6, 4, 4] ∧
      call.callArguments.map (·.map (·.id)) = .ok [6, 4, 4] := by
  refine ⟨by decide +kernel, ⟨0, by decide +kernel⟩, ⟨2, by decide +kernel⟩, rfl, rfl, ?_, ?_, ?_, ?_,
    ?_, ?_, ?_⟩ <;> decide +kernel

end Tree

end CodeTree

import CodeTree.Proofs.BuilderLog
import CodeTree.Proofs.Ancestry

/-!
# Where a builder puts a node

A node that was added with a slot is in that slot of its parent and in no other. One that was added
without a slot is in the rest slot, if the parent has one and the node is neither trivia nor a
terminal symbol, and otherwise in none. What a slot holds is read off the log of the build
(`map_id_of_slotValue`), where every node has one entry, so it holds each node once and all in the
order of their events.
-/

namespace CodeTree

namespace Node

variable {tree : Tree}

/-- Whether a node is among those that a slot of another holds. -/
def InSlot (node : Node tree) (slot : Slot) (held : Node tree) : Prop :=
  ∃ value, node.slotValue slot = .ok value ∧ held ∈ value.nodes

/-- What is read from a slot are the nodes that are stored at the position of its declaration. -/
theorem exists_slotIndex_of_slotValue {node : Node tree} {slot : Slot} {value : SlotValue tree}
    (hv : node.slotValue slot = .ok value) :
    ∃ position, node.kind.slotIndex? slot = some position ∧
      node.data.slots[position]? = some (value.nodes.map (·.id)) := by
  rw [slotValue] at hv
  cases hindex : node.kind.slotIndex? slot with
  | none =>
    rw [hindex] at hv
    cases hv
  | some position =>
    refine ⟨position, rfl, ?_⟩
    simp only [hindex] at hv
    obtain ⟨⟨decl, ids⟩, hat, hv⟩ := bind_eq_ok_iff.1 hv
    have hids : node.data.slots[position]? = some ids := by
      rw [slotAt] at hat
      split at hat
      · cases hat
      · split at hat
        · cases hat
        · next hids =>
          cases hat
          exact hids
    rw [hids]
    congr 1
    simp only at hv
    split at hv
    · obtain ⟨nodes, hnodes, hv⟩ := bind_eq_ok_iff.1 hv
      cases hv
      exact Tree.map_id_of_nodesAt hnodes
    · cases hv
      rfl
    · obtain ⟨held, hheld, hv⟩ := bind_eq_ok_iff.1 hv
      cases hv
      rw [Tree.node] at hheld
      split at hheld
      · cases hheld
        rfl
      · cases hheld
    · cases hv

theorem InSlot.declares {node held : Node tree} {slot : Slot} (h : node.InSlot slot held) :
    node.kind.declares slot = true := by
  obtain ⟨value, hvalue, -⟩ := h
  obtain ⟨position, hposition, -⟩ := exists_slotIndex_of_slotValue hvalue
  rw [← NodeKind.slotIndex?_isSome_iff, hposition, Option.isSome_some]

end Node

namespace Builder.Kept

open Node

variable {tree : Tree} {log : List Entry} {stack : List OpenNode} {node held : Node tree}

theorem exists_entry (h : Kept tree.nodes stack log) (node : Node tree) :
    ∃ entry, log[node.id]? = some entry ∧ entry.added.id = node.id ∧
      node.data.parent = entry.parent ∧ node.kind = entry.added.kind := by
  have hlt : node.id < log.length := by
    rw [h.length_log]
    exact node.id_lt
  refine ⟨log[node.id], List.getElem?_eq_getElem hlt, ?_, ?_⟩
  · have hids := congrArg (·[node.id]?) h.ids
    simpa [hlt, node.id_lt] using hids
  · have hheaders := congrArg (·[node.id]?) h.headers
    have hdata : tree.nodes.toList[node.id]? = some node.data := by
      rw [Array.getElem?_toList]
      exact Tree.getElem?_eq_data node
    simpa [hlt, hdata, Node.kind] using hheaders

theorem getElem?_of_mem (h : Kept tree.nodes stack log) {entry : Entry} (hm : entry ∈ log) :
    log[entry.added.id]? = some entry := by
  obtain ⟨i, hi, rfl⟩ := List.getElem_of_mem hm
  have hids := congrArg (·[i]?) h.ids
  have hlt : i < tree.nodes.size := by rwa [← h.length_log]
  have hid : log[i].added.id = i := by simpa [hi, hlt] using hids
  rw [hid, List.getElem?_eq_getElem hi]

theorem pairwise_addedTo (h : Kept tree.nodes stack log) (id : NodeId) :
    ((addedTo log id).map (·.id)).Pairwise (· < ·) := by
  have hids : (log.map (·.added.id)).Pairwise (· < ·) := by
    rw [h.ids]
    exact List.pairwise_lt_range
  rw [addedTo, List.map_map]
  exact hids.sublist (List.filter_sublist.map _)

/-- A slot holds the nodes that were added to its node and whose place it is. -/
theorem map_id_of_slotValue (h : Kept tree.nodes [] log) {slot : Slot} {value : SlotValue tree}
    (hv : node.slotValue slot = .ok value) :
    value.nodes.map (·.id) = ((addedTo log node.id).filter fun added =>
      node.kind.place added.slot added.kind == some slot).map (·.id) := by
  obtain ⟨position, hposition, hids⟩ := exists_slotIndex_of_slotValue hv
  obtain ⟨hlt, hslot⟩ := NodeKind.slotIndex?_eq_some_iff.1 hposition
  have hfilled := h.closed node.id node.data (Tree.getElem?_eq_data node) (by simp)
  have hkind : position < node.data.kind.slots.length := hlt
  rw [hfilled.slots, distribute, List.getElem?_map, List.getElem?_range hkind] at hids
  have htarget : ∀ added ∈ addedTo log node.id, (target? node.data.kind added == some position) =
      (node.kind.place added.slot added.kind == some slot) := by
    intro added _
    rw [Bool.eq_iff_iff, beq_iff_eq, beq_iff_eq, target?_eq_some_iff, ← hslot]
    exact exists_prop_of_true hkind
  rw [← Option.some.inj hids, ← List.filter_congr htarget]

theorem declares_of_place (h : Kept tree.nodes [] log) {added : Added}
    (hm : added ∈ addedTo log node.id) {slot : Slot}
    (hp : node.kind.place added.slot added.kind = some slot) : node.kind.declares slot = true := by
  have hfilled := h.closed node.id node.data (Tree.getElem?_eq_data node) (by simp)
  cases hslot : added.slot with
  | some given =>
    rw [hslot, NodeKind.place_some] at hp
    obtain ⟨hundeclared, -⟩ := List.append_eq_nil_iff.1 hfilled.errors
    have hnone := List.filterMap_eq_nil_iff.1 hundeclared added hm
    exact undeclared?_eq_none_iff.1 hnone slot (hslot.trans hp)
  | none =>
    rw [hslot, NodeKind.place_none] at hp
    split at hp
    · obtain ⟨decl, hdecl, rfl⟩ := Option.map_eq_some_iff.1 hp
      have hmem := (NodeKind.mem_of_restSlot? hdecl).1
      rw [NodeKind.declares, NodeKind.slot?_eq_some_iff.2 ⟨hmem, rfl⟩, Option.isSome_some]
    · cases hp

theorem mem_addedTo_of_hasParent (h : Kept tree.nodes stack log) {entry : Entry}
    (he : log[held.id]? = some entry) (hp : held.HasParent node) :
    entry.added ∈ addedTo log node.id ∧ entry.added.id = held.id ∧
      held.kind = entry.added.kind := by
  obtain ⟨other, ho, hid, hparent, hkind⟩ := h.exists_entry held
  obtain rfl := Option.some.inj (ho.symm.trans he)
  rw [hasParent_iff.1 hp] at hparent
  refine ⟨mem_addedTo.2 ?_, hid, hkind⟩
  rw [hparent]
  exact List.mem_of_getElem? ho

/-- A node is in the slot that is its place, and in no other. -/
theorem inSlot_iff (h : Kept tree.nodes [] log) (hv : tree.Valid) {entry : Entry}
    (he : log[held.id]? = some entry) (hp : held.HasParent node) {slot : Slot} :
    node.InSlot slot held ↔ node.kind.place entry.added.slot held.kind = some slot := by
  obtain ⟨hadded, hid, hkind⟩ := h.mem_addedTo_of_hasParent he hp
  rw [hkind]
  constructor
  · rintro ⟨value, hvalue, hm⟩
    have hmem : held.id ∈ value.nodes.map (·.id) := List.mem_map_of_mem hm
    rw [h.map_id_of_slotValue hvalue] at hmem
    obtain ⟨added, hadded, heq⟩ := List.mem_map.1 hmem
    obtain ⟨hm, hplace⟩ := List.mem_filter.1 hadded
    have hother := h.getElem?_of_mem (mem_addedTo.1 hm)
    rw [heq, he] at hother
    rw [Option.some.inj hother]
    exact beq_iff_eq.1 hplace
  · intro hplace
    obtain ⟨value, hvalue, -⟩ := hv.exists_slotValue node (h.declares_of_place hadded hplace)
    have hmem : entry.added.id ∈ value.nodes.map (·.id) := by
      rw [h.map_id_of_slotValue hvalue]
      exact List.mem_map_of_mem (List.mem_filter.2 ⟨hadded, beq_iff_eq.2 hplace⟩)
    rw [hid] at hmem
    obtain ⟨other, hm, heq⟩ := List.mem_map.1 hmem
    rw [Tree.node_ext heq] at hm
    exact ⟨value, hvalue, hm⟩

theorem stop_le_start (h : Kept tree.nodes [] log) (hv : tree.Valid) {a b : Node tree}
    (ha : node.HasChild a) (hb : node.HasChild b) (hlt : a.id < b.id) :
    a.span.stop ≤ b.span.start := by
  obtain ⟨children, hok, hids, -, hspans⟩ := hv.exists_children node
  have hfilled := h.closed node.id node.data (Tree.getElem?_eq_data node) (by simp)
  have hgrow : (children.map (·.id)).Pairwise (· < ·) := by
    rw [hids, hfilled.children]
    exact (h.pairwise_addedTo node.id).sublist (List.filter_sublist.map _)
  have hchild := (hasChild_iff hok).1 ha
  have hfollow := (hspans (List.ne_nil_of_mem hchild)).pairwise
  rw [List.pairwise_map] at hgrow hfollow
  obtain ⟨i, hi, rfl⟩ := List.getElem_of_mem hchild
  obtain ⟨j, hj, rfl⟩ := List.getElem_of_mem ((hasChild_iff hok).1 hb)
  rcases Nat.lt_trichotomy i j with hij | rfl | hij
  · exact List.pairwise_iff_getElem.1 hfollow i j hi hj hij
  · exact absurd hlt (Nat.lt_irrefl _)
  · exact absurd (List.pairwise_iff_getElem.1 hgrow j i hj hi hij) (Nat.lt_asymm hlt)

theorem hasChild_iff_detached (h : Kept tree.nodes [] log) {entry : Entry}
    (he : log[held.id]? = some entry) (hp : held.HasParent node) :
    node.HasChild held ↔ entry.added.detached = false := by
  obtain ⟨hadded, hid, -⟩ := h.mem_addedTo_of_hasParent he hp
  have hfilled := h.closed node.id node.data (Tree.getElem?_eq_data node) (by simp)
  rw [HasChild, hfilled.children]
  constructor
  · intro hm
    obtain ⟨added, hm, heq⟩ := List.mem_map.1 hm
    obtain ⟨hm, hdetached⟩ := List.mem_filter.1 hm
    have hother := h.getElem?_of_mem (mem_addedTo.1 hm)
    rw [heq, he] at hother
    rw [Option.some.inj hother]
    simpa using hdetached
  · intro hdetached
    rw [← hid]
    exact List.mem_map_of_mem (List.mem_filter.2 ⟨hadded, by simp [hdetached]⟩)

end Builder.Kept

namespace Tree

open Node

variable {tree : Tree} {node held : Node tree} {slot : Slot}

theorem Valid.inSlot_iff_mem_zip (h : tree.Valid) :
    node.InSlot slot held ↔ ∃ decl ids, (decl, ids) ∈ node.kind.slots.zip node.data.slots ∧
      decl.slot = slot ∧ held.id ∈ ids := by
  constructor
  · rintro ⟨value, hvalue, hm⟩
    obtain ⟨position, hposition, hids⟩ := exists_slotIndex_of_slotValue hvalue
    obtain ⟨hlt, hslot⟩ := NodeKind.slotIndex?_eq_some_iff.1 hposition
    have hzip : (node.kind.slots.zip node.data.slots)[position]? =
        some (node.kind.slots[position], value.nodes.map (·.id)) := by
      rw [List.getElem?_zip_eq_some]
      exact ⟨List.getElem?_eq_getElem hlt, hids⟩
    exact ⟨_, _, List.mem_of_getElem? hzip, hslot, List.mem_map_of_mem hm⟩
  · rintro ⟨decl, ids, hm, rfl, hid⟩
    obtain ⟨position, hposition⟩ := List.mem_iff_getElem?.1 hm
    obtain ⟨hdecl, hids⟩ := List.getElem?_zip_eq_some.1 hposition
    obtain ⟨hlt, rfl⟩ := List.getElem?_eq_some_iff.1 hdecl
    have hindex : node.kind.slotIndex? node.kind.slots[position].slot = some position :=
      NodeKind.slotIndex?_eq_some_iff.2 ⟨hlt, rfl⟩
    have hdeclares : node.kind.declares node.kind.slots[position].slot = true := by
      rw [← NodeKind.slotIndex?_isSome_iff, hindex, Option.isSome_some]
    obtain ⟨value, hvalue, -⟩ := h.exists_slotValue node hdeclares
    obtain ⟨other, hother, hvalues⟩ := exists_slotIndex_of_slotValue hvalue
    obtain rfl := Option.some.inj (hindex.symm.trans hother)
    have hsame : ids = value.nodes.map (·.id) := Option.some.inj (hids.symm.trans hvalues)
    rw [hsame] at hid
    obtain ⟨found, hm, heq⟩ := List.mem_map.1 hid
    rw [node_ext heq] at hm
    exact ⟨value, hvalue, hm⟩

theorem Valid.hasParent_of_inSlot (h : tree.Valid) (hin : node.InSlot slot held) :
    held.HasParent node := by
  obtain ⟨other, hother, hparents⟩ := h.exists_slotValue node hin.declares
  obtain ⟨value, hvalue, hm⟩ := hin
  cases hvalue.symm.trans hother
  exact hasParent_iff.2 (hparents held hm)

/-- Where no two slots hold a node, the slot found for it is the one that holds it. -/
theorem Valid.parentSlot_eq_iff (h : tree.Valid) (hp : held.HasParent node)
    (hunique : ∀ a b, node.InSlot a held → node.InSlot b held → a = b) :
    held.parentSlot = .ok (some slot) ↔ node.InSlot slot held := by
  have hread : held.parentSlot = .ok (((node.kind.slots.zip node.data.slots).find?
      (·.2.contains held.id)).map (·.1.slot)) := by
    rw [parentSlot, hp]
    rfl
  rw [hread, Except.ok.injEq, Option.map_eq_some_iff]
  constructor
  · rintro ⟨⟨decl, ids⟩, hfind, hslot⟩
    have hid : held.id ∈ ids := by simpa using List.find?_some hfind
    exact h.inSlot_iff_mem_zip.2 ⟨decl, ids, List.mem_of_find?_eq_some hfind, hslot, hid⟩
  · intro hin
    obtain ⟨decl, ids, hm, -, hid⟩ := h.inSlot_iff_mem_zip.1 hin
    cases hfind : (node.kind.slots.zip node.data.slots).find? (·.2.contains held.id) with
    | none =>
      have hnone := List.find?_eq_none.1 hfind _ hm
      exact absurd (by simpa using hid) hnone
    | some found =>
      obtain ⟨other, others⟩ := found
      have hother : held.id ∈ others := by simpa using List.find?_some hfind
      have hfound : node.InSlot other.slot held :=
        h.inSlot_iff_mem_zip.2 ⟨other, others, List.mem_of_find?_eq_some hfind, rfl, hother⟩
      exact ⟨(other, others), rfl, hunique _ _ hfound hin⟩

end Tree

namespace Node

variable {tree : Tree}

/-- Whether the declared slots of a node can be read, and hold nodes of which it is the parent, each
once, in the order of their ids and, as far as they are children, in that of the source. -/
structure Ordered (node : Node tree) : Prop where
  readable : ∀ slot, node.kind.declares slot = true → ∃ value, node.slotValue slot = .ok value
  hasParent : ∀ slot value, node.slotValue slot = .ok value →
    ∀ held ∈ value.nodes, held.HasParent node
  ids : ∀ slot value, node.slotValue slot = .ok value →
    (value.nodes.map (·.id)).Pairwise (· < ·)
  spans : ∀ slot value, node.slotValue slot = .ok value →
    value.nodes.Pairwise fun before after => node.HasChild before → node.HasChild after →
      before.span.stop ≤ after.span.start

/-- Whether a node that was added to another in some way is where it belongs: in the slot it was
given and in no other or, if it was given none, in the rest slot, which takes neither trivia nor
terminal symbols. -/
structure PlacedBy (node held : Node tree) (addition : Addition) : Prop where
  kind : held.kind = addition.kind
  child_iff : node.HasChild held ↔ addition.detached = false
  given : ∀ given, addition.slot = some given → ∀ slot, node.InSlot slot held ↔ slot = given
  rest : addition.slot = none → ∀ slot, node.InSlot slot held ↔
    held.kind.isNamed = true ∧ node.kind.restSlot?.map (·.slot) = some slot
  parentSlot_iff : ∀ slot, held.parentSlot = .ok (some slot) ↔ node.InSlot slot held
  named : node.kind.restSlot?.isSome = true → held.kind.isNamed = true →
    ∃ slot, node.InSlot slot held

end Node

namespace Builder.Kept

open Node

variable {tree : Tree} {log : List Entry} {node held : Node tree}

theorem ordered (h : Kept tree.nodes [] log) (hv : tree.Valid) (node : Node tree) :
    node.Ordered := by
  have hids : ∀ slot value, node.slotValue slot = .ok value →
      (value.nodes.map (·.id)).Pairwise (· < ·) := by
    intro slot value hvalue
    rw [h.map_id_of_slotValue hvalue]
    exact (h.pairwise_addedTo node.id).sublist (List.filter_sublist.map _)
  refine ⟨fun slot hs => ?_, fun slot value hvalue held hm => ?_, hids, fun slot value hvalue => ?_⟩
  · obtain ⟨value, hvalue, -⟩ := hv.exists_slotValue node hs
    exact ⟨value, hvalue⟩
  · exact hv.hasParent_of_inSlot ⟨value, hvalue, hm⟩
  · have hpairwise := hids slot value hvalue
    rw [List.pairwise_map] at hpairwise
    exact hpairwise.imp fun hlt ha hb => h.stop_le_start hv ha hb hlt

theorem placedBy (h : Kept tree.nodes [] log) (hv : tree.Valid) {entry : Entry}
    (he : log[held.id]? = some entry) (hp : held.HasParent node) :
    node.PlacedBy held entry.addition := by
  obtain ⟨-, -, hkind⟩ := h.mem_addedTo_of_hasParent he hp
  have hplace : ∀ slot, node.InSlot slot held ↔
      node.kind.place entry.added.slot held.kind = some slot := fun _ => h.inSlot_iff hv he hp
  refine ⟨hkind, h.hasChild_iff_detached he hp, fun given hs slot => ?_, fun hs slot => ?_,
    fun slot => hv.parentSlot_eq_iff hp fun a b ha hb => ?_, fun hrest hnamed => ?_⟩
  · have hslot : entry.added.slot = some given := hs
    rw [hplace, hslot, NodeKind.place_some, Option.some.injEq, eq_comm]
  · have hslot : entry.added.slot = none := hs
    rw [hplace, hslot, NodeKind.place_none]
    cases held.kind.isNamed <;> simp
  · exact Option.some.inj (((hplace a).1 ha).symm.trans ((hplace b).1 hb))
  · obtain ⟨decl, hdecl⟩ := Option.isSome_iff_exists.1 hrest
    cases hslot : entry.added.slot with
    | some given => exact ⟨given, (hplace given).2 (by rw [hslot, NodeKind.place_some])⟩
    | none =>
      refine ⟨decl.slot, (hplace _).2 ?_⟩
      rw [hslot, NodeKind.place_none, if_pos hnamed, hdecl, Option.map_some]

end Builder.Kept

/-- The node that an event adds has as its id the number of nodes that were added before. In the
tree that a stream builds, the slots of every node are in order, and every node below another is
where it belongs by what its event says. -/
theorem Tree.slots_of_ofEvents (language : Language) (events : List Event) (tree : Tree)
    (h : Tree.ofEvents language events = .ok tree) :
    (∀ before after, events = before ++ after →
      ((Builder.new language).run before).nodes.size = (additions before).length) ∧
      tree.nodes.size = (additions events).length ∧
      (∀ node : Node tree, node.Ordered) ∧
      ∀ node held : Node tree, held.HasParent node → ∃ addition,
        (additions events)[held.id]? = some addition ∧ node.PlacedBy held addition := by
  obtain ⟨herrors, hstack, -, hvalid, rfl⟩ := Builder.finish_eq_ok_iff.1 h
  have hrun : ∀ before, ((Builder.new language).run before).errors = [] →
      ∃ log, Builder.Kept ((Builder.new language).run before).nodes
        ((Builder.new language).run before).stack log ∧
          log.map Builder.Entry.addition = additions before := by
    intro before he
    have hnew : Builder.Kept (Builder.new language).nodes (Builder.new language).stack [] := .nil
    exact Builder.exists_kept_run hnew he
  have hsize : ∀ before, ((Builder.new language).run before).errors = [] →
      ((Builder.new language).run before).nodes.size = (additions before).length := by
    intro before he
    obtain ⟨log, hkept, hadditions⟩ := hrun before he
    rw [← hadditions, List.length_map, hkept.length_log]
  obtain ⟨log, hkept, hadditions⟩ := hrun events herrors
  rw [hstack] at hkept
  refine ⟨fun before after hsplit => ?_, hsize events herrors, hkept.ordered hvalid,
    fun node held hp => ?_⟩
  · rw [hsplit, Builder.run_append] at herrors
    exact hsize before (Builder.of_errors_run herrors)
  · obtain ⟨entry, hentry, -⟩ := hkept.exists_entry held
    refine ⟨entry.addition, ?_, hkept.placedBy hvalid hentry hp⟩
    rw [← hadditions, List.getElem?_map, hentry, Option.map_some]

/-- A variation point with an alternative and a blot, between which a terminal symbol stands. The
blot is given the rest slot, and the variation point goes there by itself. -/
def mixed : List Event :=
  [.start none (.special .parseError), .whitespace " ",
    .start none (.special .variationPoint), .leaf (some .raw) (.special .errorTree) "a",
    .alternative (.special .parseError), .blot none "a", .finish, .finish,
    .symbol none ";", .blot (some .items) "b", .finish]

def mixedTree : Tree :=
  .ofParts .rust " a;b" #[⟨.special .parseError, ⟨0, 4⟩, none, [1, 2, 6, 7], [[2, 7]]⟩,
    ⟨.special .innerWhitespace, ⟨0, 1⟩, some 0, [], []⟩,
    ⟨.special .variationPoint, ⟨1, 2⟩, some 0, [3], [[3], [4]]⟩,
    ⟨.special .errorTree, ⟨1, 2⟩, some 2, [], []⟩,
    ⟨.special .parseError, ⟨1, 2⟩, some 2, [5], [[5]]⟩,
    ⟨.special .blot, ⟨1, 2⟩, some 4, [], []⟩,
    ⟨.special .terminalSymbol, ⟨2, 3⟩, some 0, [], []⟩,
    ⟨.special .blot, ⟨3, 4⟩, some 0, [], []⟩]

theorem Tree.slots_of_mixed :
    Tree.ofEvents .rust mixed = .ok mixedTree ∧ ∃ root point alternative symbol : Node mixedTree,
      root.id = 0 ∧ point.id = 2 ∧ alternative.id = 4 ∧ symbol.id = 6 ∧
        root.InSlot .items point ∧ point.InSlot .alternatives alternative ∧
        ∀ slot, ¬root.InSlot slot symbol := by
  have hbuild : Tree.ofEvents .rust mixed = .ok mixedTree := by decide +kernel
  let root : Node mixedTree := ⟨0, by decide⟩
  let point : Node mixedTree := ⟨2, by decide⟩
  let alternative : Node mixedTree := ⟨4, by decide⟩
  let symbol : Node mixedTree := ⟨6, by decide⟩
  obtain ⟨-, -, -, hplaced⟩ := Tree.slots_of_ofEvents .rust mixed mixedTree hbuild
  obtain ⟨_, hsecond, hpoint⟩ := hplaced root point (Node.hasParent_iff.2 rfl)
  obtain ⟨_, hfourth, halternative⟩ := hplaced point alternative (Node.hasParent_iff.2 rfl)
  obtain ⟨_, hsixth, hsymbol⟩ := hplaced root symbol (Node.hasParent_iff.2 rfl)
  cases hsecond
  cases hfourth
  cases hsixth
  refine ⟨hbuild, root, point, alternative, symbol, rfl, rfl, rfl, rfl, ?_, ?_, fun slot hin => ?_⟩
  · exact (hpoint.rest rfl .items).2 (by decide)
  · exact (halternative.given _ rfl .alternatives).2 rfl
  · exact absurd ((hsymbol.rest rfl slot).1 hin).1 (by decide)

end CodeTree

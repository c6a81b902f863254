import CodeTree.Proofs.EventOrder
import CodeTree.Proofs.PlacedOutline
import CodeTree.Proofs.SlotDistribution
import CodeTree.Tree.Expression

/-!
# Telling a tree again

A finished tree can be told to a new builder: its nodes are opened and closed in the order of their
ids, each in the slot that its parent holds it in. This stream need not be the one that the tree was
built from, since a node that went to the rest slot by itself is now sent there. The outline of the
tree with these slots (`Outline.placed`) has the same nodes, can be built as well, and is what is
told (`Outline.retoldWithin_eq`), so the new builder makes the same tree.
-/

namespace CodeTree

namespace Node

variable {tree : Tree}

/-- The children and the alternatives of a node, in the order of their ids. -/
def heldInOrder (node : Node tree) : Except TreeError (List (Node tree)) := do
  let held := (← node.children) ++ (← node.alternatives)
  tree.nodesAt ((held.map (·.id)).insertionSort (· ≤ ·))

/-- The events of a node and what is below it, for at most the given depth of nesting. The flag says
whether the node is an alternative. -/
def retoldWithin : Nat → Bool → Node tree → Except TreeError (List Event)
  | 0, _, node => .error (.endless node.id)
  | depth + 1, detached, node => do
    let slot ← node.parentSlot
    if node.isTerminal then
      let text ← node.text
      return [.leaf slot node.kind text]
    else
      let alternatives ← node.alternatives
      let inner ← (← node.heldInOrder).mapM fun held =>
        retoldWithin depth (alternatives.contains held) held
      let opening := if detached then .alternative node.kind else .start slot node.kind
      return opening :: (inner.flatten ++ [.finish])

end Node

def Tree.retold (tree : Tree) : Except TreeError (List Event) := do
  let root ← tree.root
  root.retoldWithin tree.size false

theorem NodeKind.find?_slots {kind : NodeKind} {place : Option Slot}
    (h : ∀ slot, place = some slot → kind.declares slot = true) :
    (kind.slots.find? fun decl => place == some decl.slot).map (·.slot) = place := by
  cases place with
  | none =>
    rw [List.find?_eq_none.2 (by simp), Option.map_none]
  | some slot =>
    obtain ⟨decl, hdecl⟩ := Option.isSome_iff_exists.1 (h slot rfl)
    have hfind : (kind.slots.find? fun decl => some slot == some decl.slot) = some decl := by
      rw [← hdecl, NodeKind.slot?]
      congr 1
      funext other
      rw [Bool.eq_iff_iff, beq_iff_eq, beq_iff_eq, Option.some.injEq]
      exact eq_comm
    rw [hfind, Option.map_some, (NodeKind.slot?_eq_some_iff.1 hdecl).2]

namespace Outline

section

variable {tree : Tree} {node held : Node tree} {label : Label} {parts : List Outline}
  {language : Language} {source : String}

theorem StandsAt.parentSlot_eq (h : (Outline.node label parts).StandsAt node)
    (hb : Buildable language source label parts) {part : Outline}
    (hm : (held.id, part) ∈ numbered (node.id + 1) parts) (hp : held.HasParent node) :
    held.parentSlot = .ok (part.label.placeIn label.kind) := by
  obtain ⟨parent, hdata, -⟩ := h.exists_data
  have hkind : node.kind = label.kind := h.kind_eq
  have hin : ∀ decl : SlotDecl,
      (idsWhere (·.placeIn label.kind == some decl.slot) (node.id + 1) parts).contains held.id =
        (part.label.placeIn label.kind == some decl.slot) := by
    intro decl
    rw [Bool.eq_iff_iff, List.contains_iff_mem, mem_idsWhere]
    constructor
    · rintro ⟨other, hother, hplace⟩
      rwa [numbered_inj hm hother]
    · exact fun hplace => ⟨part, hm, hplace⟩
  rw [Node.parentSlot, hp]
  simp only [bind, Except.bind, hkind, hdata, slots_entry]
  rw [← List.map_prod_left_eq_zip, List.find?_map]
  simp only [Function.comp_def, hin, Option.map_map]
  exact congrArg Except.ok (NodeKind.find?_slots fun slot hslot =>
    declares_of_placeIn (hb.declared part (mem_of_mem_numbered hm)) hslot)

theorem StandsAt.alternatives_eq (h : (Outline.node label parts).StandsAt node)
    (hs : Sound language source label parts) :
    node.alternatives = tree.nodesAt (idsWhere (·.detached) (node.id + 1) parts) := by
  obtain ⟨parent, hdata, -⟩ := h.exists_data
  have hkind : node.kind = label.kind := h.kind_eq
  by_cases hk : label.kind = .special .variationPoint
  · have hslots : node.data.slots.getD 1 [] = idsWhere (·.detached) (node.id + 1) parts := by
      rw [← hs.idsWhere_alternatives hk, hdata, slots_entry, hk]
      rfl
    rw [Node.alternatives, hkind, hk, ← hslots]
    rfl
  · have hnone : idsWhere (·.detached) (node.id + 1) parts = [] := by
      rw [idsWhere, List.filter_eq_nil_iff.2 fun head hm => ?_, List.map_nil]
      simp [hs.detached_eq_false hk (mem_of_mem_numbered hm)]
    rw [Node.alternatives, hkind, hnone]
    split
    · next he hindex =>
      have hdeclares : label.kind.declares .alternatives = true := by
        rw [← NodeKind.slotIndex?_isSome_iff, hindex, Option.isSome_some]
      exact absurd (NodeKind.eq_of_isError he hdeclares) hk
    · rfl

/-- What a node holds, in the order of the ids, are its parts. -/
theorem StandsAt.exists_heldInOrder (h : (Outline.node label parts).StandsAt node)
    (hs : Sound language source label parts) :
    ∃ alternatives held, node.alternatives = .ok alternatives ∧
      alternatives.map (·.id) = idsWhere (·.detached) (node.id + 1) parts ∧
      node.heldInOrder = .ok held ∧ held.map (·.id) = rootIds (node.id + 1) parts := by
  obtain ⟨parent, hdata, hparts⟩ := h.exists_data
  obtain ⟨children, hchildren, -⟩ := hparts.exists_nodesAt (!·.detached)
  obtain ⟨alternatives, halternatives, -⟩ := hparts.exists_nodesAt (·.detached)
  obtain ⟨held, hheld, -⟩ := hparts.exists_nodesAt fun _ => true
  have hall : idsWhere (fun _ => true) (node.id + 1) parts = rootIds (node.id + 1) parts := by
    rw [idsWhere, List.filter_true, rootIds]
  have hread : node.children = .ok children := by
    rw [Node.children, hdata, children_entry, hchildren]
  have hothers : node.alternatives = .ok alternatives := by
    rw [h.alternatives_eq hs, halternatives]
  have hids : ((children ++ alternatives).map (·.id)).insertionSort (· ≤ ·) =
      rootIds (node.id + 1) parts := by
    rw [List.map_append, ← Tree.map_id_of_nodesAt hchildren,
      ← Tree.map_id_of_nodesAt halternatives]
    have hperm := (List.perm_insertionSort (· ≤ ·) _).trans
      (idsWhere_append_perm (node.id + 1) parts)
    refine hperm.eq_of_pairwise' (List.pairwise_insertionSort _ _) ?_
    rw [rootIds, List.pairwise_map]
    exact (pairwise_numbered (node.id + 1) parts).imp fun hle => Nat.le_of_add_right_le hle
  refine ⟨alternatives, held, hothers, (Tree.map_id_of_nodesAt halternatives).symm, ?_, ?_⟩
  · rw [Node.heldInOrder, hread, hothers]
    simp only [bind, Except.bind]
    rw [hids, ← hall, hheld]
  · rw [← hall]
    exact (Tree.map_id_of_nodesAt hheld).symm

/-- Whether a node that another one holds, which has the given kind and alternatives, stands for a
part, is told in the slot of the part, and is told as an alternative if the part is one. -/
structure ToldAs (kind : NodeKind) (alternatives : List (Node tree)) (part : Outline)
    (held : Node tree) : Prop where
  standsAt : part.StandsAt held
  contains_eq : alternatives.contains held = part.label.detached
  parentSlot_eq : held.parentSlot = .ok (part.label.placeIn kind)

theorem forall₂_of_map_id {R : Outline → Node tree → Prop} {heads : List (NodeId × Outline)}
    {held : List (Node tree)} (hids : held.map (·.id) = heads.map (·.1))
    (h : ∀ head ∈ heads, ∀ node, node.id = head.1 → R head.2 node) :
    List.Forall₂ R (heads.map (·.2)) held := by
  induction heads generalizing held with
  | nil =>
    rw [List.map_nil, List.map_eq_nil_iff] at hids
    rw [hids]
    exact .nil
  | cons head rest ih =>
    obtain ⟨node, others, rfl, hid, hothers⟩ := List.map_eq_cons_iff.1 hids
    rw [List.forall_mem_cons] at h
    exact .cons (h.1 node hid) (ih hothers h.2)

theorem StandsAt.exists_told (h : (Outline.node label parts).StandsAt node)
    (hs : Sound language source label parts) :
    ∃ alternatives held, node.alternatives = .ok alternatives ∧ node.heldInOrder = .ok held ∧
      List.Forall₂ (ToldAs label.kind alternatives) parts held := by
  obtain ⟨alternatives, held, halternatives, hids, hheld, hroots⟩ := h.exists_heldInOrder hs
  refine ⟨alternatives, held, halternatives, hheld, ?_⟩
  rw [← map_snd_numbered (node.id + 1) parts]
  refine forall₂_of_map_id hroots fun head hm other hid => ?_
  obtain ⟨id, part⟩ := head
  obtain ⟨same, hsame, hstands, hparent⟩ := h.exists_held hm
  obtain rfl : same = other := Tree.node_ext (hsame.trans hid.symm)
  obtain rfl : same.id = id := hid
  refine ⟨hstands, ?_, h.parentSlot_eq hs.toBuildable hm hparent⟩
  have hmem : same ∈ alternatives ↔ same.id ∈ alternatives.map (·.id) := by
    rw [List.mem_map]
    exact ⟨fun hm => ⟨same, hm, rfl⟩, fun ⟨_, hm, hid⟩ => Tree.node_ext hid ▸ hm⟩
  rw [Bool.eq_iff_iff, List.contains_iff_mem, hmem, hids, mem_idsWhere]
  constructor
  · rintro ⟨other, hother, hdetached⟩
    rwa [numbered_inj hm hother]
  · exact fun hdetached => ⟨part, hm, hdetached⟩

mutual

/-- What is told of a node are the events of its outline with its slots. -/
theorem retoldWithin_eq (hv : tree.Valid) : ∀ (outline : Outline) (depth : Nat)
    (slot : Option Slot) (node : Node tree), outline.All (Sound language tree.source) →
      outline.StandsAt node → outline.size ≤ depth → node.parentSlot = .ok slot →
        node.retoldWithin depth outline.label.detached =
          .ok ((outline.placed slot).events tree.source)
  | .node label parts, 0, slot, held, _, _, hsize, _ => by
    rw [size_node] at hsize
    cases hsize
  | .node label parts, depth + 1, slot, told, ha, h, hsize, hslot => by
    obtain ⟨hs, hparts⟩ := all_node.1 ha
    have hkind : told.kind = label.kind := h.kind_eq
    have hspan : told.span = label.span := h.span_eq
    rw [Node.retoldWithin, hslot, placed_node]
    simp only [bind, Except.bind, Node.isTerminal, hkind]
    cases ht : label.kind.isTerminal with
    | true =>
      have htext : told.text = .ok (textAt tree.source label.span) := by
        rw [hv.text_eq told, hspan]
        rfl
      have hevents : (Outline.node { label with slot } (placedAll label.kind parts)).events
          tree.source = [.leaf slot label.kind (textAt tree.source label.span)] :=
        events_leaf tree.source _ ht
      rw [hevents, if_pos rfl, htext]
      rfl
    | false =>
      obtain ⟨alternatives, held, halternatives, hheld, htold⟩ := h.exists_told hs
      rw [size_node] at hsize
      obtain ⟨inner, hinner, hflat⟩ := mapM_retoldWithin_eq hv label.kind alternatives parts depth
        held hparts htold (by omega)
      rw [events_structured tree.source { label with slot } _ ht, if_neg (by simp), halternatives,
        hheld]
      simp only [hinner]
      rw [← hflat]
      rfl

theorem mapM_retoldWithin_eq (hv : tree.Valid) (kind : NodeKind)
    (alternatives : List (Node tree)) : ∀ (parts : List Outline) (depth : Nat)
      (held : List (Node tree)), AllParts (Sound language tree.source) parts →
        List.Forall₂ (ToldAs kind alternatives) parts held → sizeAll parts ≤ depth →
          ∃ inner, (held.mapM fun held =>
            held.retoldWithin depth (alternatives.contains held)) = .ok inner ∧
              inner.flatten = eventsAll tree.source (placedAll kind parts)
  | [], depth, _, _, .nil, _ => by
    rw [placedAll]
    exact ⟨[], rfl, rfl⟩
  | part :: rest, depth, first :: others, ha, .cons htold hrest, hsize => by
    rw [AllParts] at ha
    rw [sizeAll_cons] at hsize
    have hnode := retoldWithin_eq hv part depth _ first ha.1 htold.standsAt (by omega)
      htold.parentSlot_eq
    obtain ⟨inner, hinner, hflat⟩ := mapM_retoldWithin_eq hv kind alternatives rest depth others
      ha.2 hrest (by omega)
    refine ⟨(part.placed (part.label.placeIn kind)).events tree.source :: inner, ?_, ?_⟩
    · rw [List.mapM_cons, htold.contains_eq, hnode, hinner]
      rfl
    · rw [List.flatten_cons, hflat, placedAll, eventsAll_cons]

end

end

end Outline

namespace Tree

open Node Outline Relation

variable {language : Language} {source : String} {outline : Outline}

/-- What is told of a tree that was made from an outline builds the same tree. -/
theorem exists_retold (h : Whole language source outline)
    (hv : (outline.toTree language source).Valid) :
    ∃ told, (outline.toTree language source).retold = .ok told ∧
      Tree.ofEvents language told = .ok (outline.toTree language source) := by
  obtain ⟨root, hroot, hstands, -⟩ := exists_standing_root hv
  have hparent : root.parentSlot = .ok none := by
    rw [parentSlot, Node.parent, hv.parent_of_root (id_of_root hroot)]
    rfl
  have htold := retoldWithin_eq hv outline (outline.toTree language source).size none root h.sound
    hstands (by rw [size_toTree]) hparent
  rw [h.attached] at htold
  refine ⟨(outline.placed none).events source, ?_, ?_⟩
  · rw [retold, hroot]
    exact htold
  · rw [(h.rooted.placed none).ofEvents_events, toTree_placed]
    exact validated_eq_ok_iff.2 ⟨hv, rfl⟩

/-- A tree that a builder made is the one that its events describe. Its source is the text outside
of alternatives. Its nodes are numbered in the order of the events that add them, which give them
their kinds and texts, so ids grow from a node to all that is below it and along the walk from the
root, which without alternatives meets all nodes. Telling the tree to a new builder makes the same
tree. -/
theorem ofEvents_retold (language : Language) (events : List Event) (tree : Tree)
    (h : Tree.ofEvents language events = .ok tree) :
    tree.source = String.join (textsOutside [] events) ∧
      (∀ before after, events = before ++ after →
        ((Builder.new language).run before).nodes.size = (before.filter Event.adds).length) ∧
      List.Forall₂ Node.AddedBy tree.allNodes (events.filter Event.adds) ∧
      (∀ node other : Node tree, TransGen Owns node other → node.id < other.id) ∧
      (∃ root nodes, tree.root = .ok root ∧ root.descendants = .ok nodes ∧
        (nodes.Pairwise fun before after => before.id < after.id) ∧
        ((∀ kind, .alternative kind ∉ events) → nodes.map (·.id) = List.range tree.size)) ∧
      ∃ told, tree.retold = .ok told ∧ Tree.ofEvents language told = .ok tree := by
  have hsize : ∀ before after, events = before ++ after →
      ((Builder.new language).run before).nodes.size = (before.filter Event.adds).length := by
    rintro before after rfl
    exact Builder.size_nodes_of_ofEvents h
  obtain ⟨source, outline, hsource, hwhole, rfl, rfl, hv⟩ := exists_outline_of_ofEvents h
  exact ⟨hsource, hsize, forall₂_allNodes hwhole hv,
    fun _ _ hb => (outlined_toTree hwhole).lt_of_below hb, exists_descendants_toTree hwhole hv,
    exists_retold hwhole hv⟩

theorem ofEvents_retold_mixed :
    Tree.ofEvents .rust mixed = .ok mixedTree ∧ mixedTree.source = " a;b" ∧
      ∃ told, mixedTree.retold = .ok told ∧ Tree.ofEvents .rust told = .ok mixedTree ∧
        told = [.start none (.special .parseError), .whitespace " ",
          .start (some .items) (.special .variationPoint), .leaf (some .raw) (.special .errorTree) "a",
          .alternative (.special .parseError), .blot (some .items) "a", .finish, .finish,
          .symbol none ";", .blot (some .items) "b", .finish] := by
  have hbuild : Tree.ofEvents .rust mixed = .ok mixedTree := by decide +kernel
  obtain ⟨hsource, -, -, -, -, told, htold, hagain⟩ := ofEvents_retold .rust mixed mixedTree hbuild
  refine ⟨hbuild, hsource, told, htold, hagain, ?_⟩
  apply Except.ok.inj
  rw [← htold]
  decide +kernel

end Tree

end CodeTree

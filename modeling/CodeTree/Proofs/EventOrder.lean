import CodeTree.Proofs.BuilderLog
import CodeTree.Proofs.OutlineRanges
import CodeTree.Proofs.Walks
import Mathlib.Data.List.Sort

/-!
# The order of events

A builder numbers its nodes in the order of the events that add them, and its source is the text of
the leaves outside of alternatives, in this order. What is below a node is added after it, so the ids
grow from a node to what it reaches, and along a walk from the root. Without alternatives the walk
comes to all nodes.
-/

namespace CodeTree

open Relation

namespace Event

def adds (event : Event) : Bool := event.addition?.isSome

end Event

/-- The texts of the leaves of a stream that are not in an alternative. The first argument says of
each open node, the innermost first, whether it is an alternative. -/
def textsOutside : List Bool → List Event → List String
  | _, [] => []
  | opened, .start _ _ :: rest => textsOutside (false :: opened) rest
  | opened, .alternative _ :: rest => textsOutside (true :: opened) rest
  | opened, .finish :: rest => textsOutside opened.tail rest
  | opened, .leaf _ _ text :: rest =>
    if opened.contains true then textsOutside opened rest else text :: textsOutside opened rest

/-- Whether a node is of the kind that an event names, and a leaf has the text of its event. -/
def Node.AddedBy {tree : Tree} (node : Node tree) : Event → Prop
  | .start _ kind => node.kind = kind
  | .alternative kind => node.kind = kind
  | .finish => False
  | .leaf _ kind text => node.kind = kind ∧ node.text = .ok text

theorem length_additions (events : List Event) :
    (additions events).length = (events.filter Event.adds).length := by
  rw [additions, List.length_filterMap_eq_countP, List.countP_eq_length_filter]
  rfl

namespace Builder

variable {language : Language} {events before after : List Event}

theorem size_nodes_run (he : ((Builder.new language).run events).errors = []) :
    ((Builder.new language).run events).nodes.size = (events.filter Event.adds).length := by
  have hnew : Kept (Builder.new language).nodes (Builder.new language).stack [] := .nil
  obtain ⟨log, hkept, hadditions⟩ := exists_kept_run hnew he
  rw [List.nil_append] at hkept
  rw [← length_additions, ← hadditions, List.length_map, hkept.length_log]

/-- When a tree is made, the next node always gets the number of events that have added one. -/
theorem size_nodes_of_ofEvents {tree : Tree}
    (h : Tree.ofEvents language (before ++ after) = .ok tree) :
    ((Builder.new language).run before).nodes.size = (before.filter Event.adds).length := by
  obtain ⟨herrors, -, -, -, -⟩ := finish_eq_ok_iff.1 h
  rw [run_append] at herrors
  exact size_nodes_run (of_errors_run herrors)

end Builder

namespace Draft

theorem textsOutside_event (opened : List Bool) (opening : Opening) (kind : NodeKind)
    (rest : List Event) :
    textsOutside opened (opening.event kind :: rest) =
      textsOutside ((opening == .alternative) :: opened) rest := by
  cases opening with
  | start slot => rfl
  | alternative => rfl

mutual

theorem join_textsOutside (opened : List Bool) (rest : List Event) : ∀ draft : Draft,
    String.join (textsOutside opened (draft.events ++ rest)) =
      (if opened.contains true then "" else draft.added) ++ String.join (textsOutside opened rest)
  | leaf slot kind text => by
    rw [events, List.singleton_append, textsOutside]
    split
    · rw [String.empty_append]
    · exact String.join_cons
  | node opening kind parts => by
    have hparts := join_textsOutside_all ((opening == .alternative) :: opened) (.finish :: rest)
      parts
    rw [events, List.cons_append, List.append_assoc, List.singleton_append, textsOutside_event,
      hparts, textsOutside, List.tail_cons, List.contains_cons, added, isAlternative, text]
    cases opening with
    | start slot => rfl
    | alternative => simp

theorem join_textsOutside_all (opened : List Bool) (rest : List Event) : ∀ parts : List Draft,
    String.join (textsOutside opened (eventsAll parts ++ rest)) =
      (if opened.contains true then "" else textAll parts) ++
        String.join (textsOutside opened rest)
  | [] => by simp
  | part :: rest' => by
    rw [eventsAll_cons, List.append_assoc, join_textsOutside opened _ part,
      join_textsOutside_all opened rest rest', textAll_cons, ← String.append_assoc]
    split
    · rw [String.empty_append]
    · rfl

end

theorem text_eq_join (draft : Draft) (h : draft.isAlternative = false) :
    draft.text = String.join (textsOutside [] draft.events) := by
  have hjoin := join_textsOutside [] [] draft
  rw [List.append_nil, added_of_not_isAlternative h] at hjoin
  rw [hjoin]
  simp [textsOutside]

end Draft

namespace Outline

variable {language : Language} {source : String}

def StoredBy (source : String) (data : NodeData) : Event → Prop
  | .start _ kind => data.kind = kind
  | .alternative kind => data.kind = kind
  | .finish => False
  | .leaf _ kind text => data.kind = kind ∧ textAt source data.span = text

theorem adds_opening (label : Label) : label.opening.adds = true := by
  rw [Label.opening]
  split <;> rfl

theorem storedBy_opening {data : NodeData} {label : Label} (h : data.kind = label.kind) :
    StoredBy source data label.opening := by
  rw [Label.opening]
  split <;> exact h

mutual

/-- The nodes of an outline stand in the order of the events that add them. -/
theorem forall₂_nodes (parent : Option NodeId) (id : NodeId) : ∀ outline : Outline,
    outline.All (Buildable language source) →
      List.Forall₂ (StoredBy source) (outline.nodes parent id)
        ((outline.events source).filter Event.adds)
  | .node label parts, h => by
    obtain ⟨hhere, hparts⟩ := all_node.1 h
    rw [nodes_node]
    cases ht : label.kind.isTerminal with
    | true =>
      rw [hhere.leaf ht, nodesAll_nil, events_leaf source _ ht]
      exact .cons ⟨rfl, rfl⟩ .nil
    | false =>
      rw [events_structured source _ _ ht, List.filter_cons_of_pos (adds_opening label),
        List.filter_append]
      refine .cons (storedBy_opening rfl) ?_
      rw [show [Event.finish].filter Event.adds = [] from rfl, List.append_nil]
      exact forall₂_nodesAll id (id + 1) parts hparts

theorem forall₂_nodesAll (parent first : NodeId) : ∀ parts : List Outline,
    AllParts (Buildable language source) parts →
      List.Forall₂ (StoredBy source) (nodesAll parent first parts)
        ((eventsAll source parts).filter Event.adds)
  | [], _ => by simp
  | part :: rest, h => by
    rw [AllParts] at h
    rw [nodesAll_cons, eventsAll_cons, List.filter_append]
    exact List.rel_append (forall₂_nodes (some parent) first part h.1)
      (forall₂_nodesAll parent (first + part.size) rest h.2)

end

mutual

theorem all_attached : ∀ outline : Outline, outline.All (Buildable language source) →
    outline.label.detached = false → (∀ kind, .alternative kind ∉ outline.events source) →
      outline.All fun _ parts => ∀ part ∈ parts, part.label.detached = false
  | .node label parts, h, hd, hn => by
    obtain ⟨hhere, hparts⟩ := all_node.1 h
    cases ht : label.kind.isTerminal with
    | true =>
      rw [hhere.leaf ht]
      exact all_node.2 ⟨List.forall_mem_nil _, trivial⟩
    | false =>
      rw [events_structured source _ _ ht] at hn
      have hnone : ∀ kind, .alternative kind ∉ eventsAll source parts := fun kind hm =>
        hn kind (List.mem_cons_of_mem _ (List.mem_append_left _ hm))
      exact all_node.2 (allParts_attached parts hparts hhere.structured hnone)

theorem allParts_attached : ∀ parts : List Outline, AllParts (Buildable language source) parts →
    (∀ part ∈ parts, part.label.detached = true → part.label.kind.isTerminal = false) →
      (∀ kind, .alternative kind ∉ eventsAll source parts) →
        (∀ part ∈ parts, part.label.detached = false) ∧
          AllParts (fun _ parts => ∀ part ∈ parts, part.label.detached = false) parts
  | [], _, _, _ => ⟨List.forall_mem_nil _, trivial⟩
  | .node label below :: rest, h, hs, hn => by
    rw [AllParts] at h ⊢
    rw [eventsAll_cons] at hn
    rw [List.forall_mem_cons] at hs ⊢
    have hd : label.detached = false := by
      by_contra hd
      have hdetached : label.detached = true := by simpa using hd
      have ht : label.kind.isTerminal = false := hs.1 hdetached
      have hopening : label.opening = .alternative label.kind := if_pos hdetached
      rw [events_structured source _ _ ht, hopening] at hn
      exact hn label.kind (by simp)
    obtain ⟨hattached, hrest⟩ := allParts_attached rest h.2 hs.2 fun kind hm =>
      hn kind (List.mem_append_right _ hm)
    exact ⟨⟨hd, hattached⟩, all_attached _ h.1 hd fun kind hm =>
      hn kind (List.mem_append_left _ hm), hrest⟩

end

section

variable {tree : Tree} {node held : Node tree} {label : Label} {parts : List Outline}

/-- Of two nodes that a node owns, what is reached from the one with the smaller id comes first. -/
theorem StandsAt.lt_of_owns_of_lt (h : (Outline.node label parts).StandsAt node)
    {other a b : Node tree} (hheld : node.Owns held) (hother : node.Owns other)
    (hlt : held.id < other.id) (ha : held.Reaches a) (hb : other.Reaches b) : a.id < b.id := by
  obtain ⟨part, hm, hpart⟩ := h.exists_part hheld
  obtain ⟨next, hm', hnext⟩ := h.exists_part hother
  have hsize := add_size_le_of_lt hm hm' hlt
  have hfirst := (hpart.lt_of_reaches ha).2
  have hlast := (hnext.lt_of_reaches hb).1
  unfold NodeId at *
  omega

theorem StandsAt.pairwise_children (h : (Outline.node label parts).StandsAt node) :
    node.data.children.Pairwise (· < ·) := by
  obtain ⟨parent, hdata, -⟩ := h.exists_data
  rw [hdata, children_entry, idsWhere, List.pairwise_map]
  refine ((pairwise_numbered (node.id + 1) parts).imp fun {before after} hle => ?_).filter _
  exact Nat.lt_of_lt_of_le (Nat.lt_add_of_pos_right before.2.size_pos) hle

theorem StandsAt.hasChild_of_owns (h : (Outline.node label parts).StandsAt node)
    (hd : ∀ part ∈ parts, part.label.detached = false) (ho : node.Owns held) :
    node.HasChild held := by
  obtain ⟨part, hm, -⟩ := h.exists_part ho
  obtain ⟨parent, hdata, -⟩ := h.exists_data
  rw [Node.HasChild, hdata, children_entry]
  exact mem_idsWhere.2 ⟨part, hm, by simp [hd part (mem_of_mem_numbered hm)]⟩

end

theorem All.exists_standsAt {P : Label → List Outline → Prop} {outline : Outline}
    (h : outline.All P) (node : Node (outline.toTree language source)) :
    ∃ part : Outline, part.StandsAt node ∧ part.All P := by
  have hlt : node.id < outline.size := by
    rw [← size_toTree language source outline]
    exact node.id_lt
  obtain ⟨parent, label, parts, hlaid, hall⟩ := exists_laidOut_of_lt none NodeId.root outline
    (laidOut_toTree language source outline) h node.id (Nat.zero_le _)
    (by rwa [NodeId.root, Nat.zero_add])
  exact ⟨.node label parts, ⟨parent, hlaid⟩, hall⟩

end Outline

namespace Tree

open Node Outline

variable {tree : Tree}

def Outlined (tree : Tree) : Prop := ∀ node : Node tree, ∃ label parts,
  (Outline.node label parts).StandsAt node

theorem Outlined.lt_of_below (h : tree.Outlined) {node other : Node tree}
    (hb : TransGen Owns node other) : node.id < other.id := by
  induction hb with
  | single ho =>
    obtain ⟨label, parts, hstands⟩ := h node
    exact hstands.lt_of_owns ho
  | @tail middle _ _ ho ih =>
    obtain ⟨label, parts, hstands⟩ := h middle
    exact Nat.lt_trans ih (hstands.lt_of_owns ho)

/-- What is below earlier nodes of a list has smaller ids than what is below later ones. -/
def Spread (nodes : List (Node tree)) : Prop :=
  nodes.Pairwise fun before after => ∀ a b, before.Reaches a → after.Reaches b → a.id < b.id

theorem Outlined.spread_children (h : tree.Outlined) {node : Node tree}
    {children : List (Node tree)} (hc : node.children = .ok children) : Spread children := by
  obtain ⟨label, parts, hstands⟩ := h node
  have hpairwise := hstands.pairwise_children
  rw [map_id_of_nodesAt hc, List.pairwise_map] at hpairwise
  refine hpairwise.imp_of_mem fun hm hm' hlt a b => ?_
  exact hstands.lt_of_owns_of_lt ((hasChild_iff hc).2 hm).owns ((hasChild_iff hc).2 hm').owns hlt

/-- Ids grow along a list in pre-order. -/
theorem Outlined.pairwise_of_listed (h : tree.Outlined) {pending all : List (Node tree)}
    (hl : Listed pending all) (hp : Spread pending) :
    all.Pairwise fun before after => before.id < after.id := by
  induction hl with
  | nil => exact .nil
  | @cons node children siblings below after hc hb ha ihb iha =>
    obtain ⟨hnode, hsiblings⟩ := List.pairwise_cons.1 hp
    have hbelow : ∀ other ∈ below, TransGen Owns node other := by
      intro other hm
      obtain ⟨child, hchild, habove⟩ := hb.mem_iff.1 hm
      exact .head' ((hasChild_iff hc).2 hchild).owns habove.reaches
    have hafter : ∀ other ∈ after, ∀ a, node.Reaches a → a.id < other.id := by
      intro other hm a hr
      obtain ⟨sibling, hsibling, habove⟩ := ha.mem_iff.1 hm
      exact hnode sibling hsibling a other hr habove.reaches
    rw [List.pairwise_cons, List.pairwise_append]
    refine ⟨fun other hm => ?_, ihb (h.spread_children hc), iha hsiblings, fun a hm b hm' => ?_⟩
    · rcases List.mem_append.1 hm with hm | hm
      · exact h.lt_of_below (hbelow other hm)
      · exact hafter other hm node .refl
    · exact hafter b hm' a (hbelow a hm).to_reflTransGen

theorem map_id_eq_range {nodes : List (Node tree)} (hall : ∀ node, node ∈ nodes)
    (hp : nodes.Pairwise fun before after => before.id < after.id) :
    nodes.map (·.id) = List.range tree.size := by
  refine (List.pairwise_map.2 hp).eq_of_mem_iff List.pairwise_lt_range fun id => ?_
  rw [List.mem_map, List.mem_range]
  constructor
  · rintro ⟨node, -, rfl⟩
    exact node.id_lt
  · intro hlt
    exact ⟨⟨id, hlt⟩, hall _, rfl⟩

variable {language : Language} {source : String} {outline : Outline} {events : List Event}

theorem exists_outline_of_ofEvents (h : Tree.ofEvents language events = .ok tree) :
    ∃ source outline, source = String.join (textsOutside [] events) ∧
      Whole language source outline ∧ outline.events source = events ∧
      tree = outline.toTree language source ∧ (outline.toTree language source).Valid := by
  obtain ⟨herrors, hstack, hnodes, -, -⟩ := Builder.finish_eq_ok_iff.1 h
  obtain ⟨slot, kind, parts, rfl⟩ := Builder.exists_root herrors hstack hnodes
  have hevery := Builder.every_of_errors_run herrors
  have hrooted := hevery.rooted_outline
  rw [hevery.ofEvents_events.1] at h
  obtain ⟨hv, rfl⟩ := validated_eq_ok_iff.1 h
  have hsound := all_sound_of_valid hv none NodeId.root _ (laidOut_toTree language _ _)
    hrooted.buildable
  exact ⟨Draft.textAll parts, _, Draft.text_eq_join (.node (.start slot) kind parts) rfl,
    ⟨hsound, hrooted.structured, hrooted.attached, hrooted.span⟩,
    hevery.events_outline 0 0 _ (Occurs.self _), rfl, hv⟩

theorem outlined_toTree (h : Whole language source outline) :
    (outline.toTree language source).Outlined := by
  intro node
  obtain ⟨⟨label, parts⟩, hstands, -⟩ := h.sound.exists_standsAt node
  exact ⟨label, parts, hstands⟩

theorem forall₂_allNodes (h : Whole language source outline)
    (hv : (outline.toTree language source).Valid) :
    List.Forall₂ Node.AddedBy (outline.toTree language source).allNodes
      ((outline.events source).filter Event.adds) := by
  have hstored := forall₂_nodes none NodeId.root outline h.rooted.buildable
  have hnodes : (outline.toTree language source).allNodes.map Node.data =
      outline.nodes none NodeId.root := map_data_allNodes _
  rw [← hnodes, List.forall₂_map_left_iff] at hstored
  refine hstored.imp fun node event hevent => ?_
  cases event with
  | start slot kind => exact hevent
  | alternative kind => exact hevent
  | finish => exact hevent
  | leaf slot kind text =>
    obtain ⟨hkind, htext⟩ := hevent
    exact ⟨hkind, (hv.text_eq node).trans (congrArg _ htext)⟩

/-- The walk from the root has growing ids. Without alternatives it comes to every node. -/
theorem exists_descendants_toTree (h : Whole language source outline)
    (hv : (outline.toTree language source).Valid) :
    ∃ root nodes, (outline.toTree language source).root = .ok root ∧
      root.descendants = .ok nodes ∧
      (nodes.Pairwise fun before after => before.id < after.id) ∧
      ((∀ kind, .alternative kind ∉ outline.events source) →
        nodes.map (·.id) = List.range (outline.toTree language source).size) := by
  obtain ⟨root, hroot, -, hreaches⟩ := exists_standing_root hv
  obtain ⟨nodes, hnodes, hlisted, -, -⟩ := hv.exists_descendants (.root (id_of_root hroot))
  have hgrows := (outlined_toTree h).pairwise_of_listed hlisted (List.pairwise_singleton _ _)
  refine ⟨root, nodes, hroot, hnodes, hgrows, fun hnone => map_id_eq_range (fun node => ?_) hgrows⟩
  have hattached := all_attached outline h.rooted.buildable h.attached hnone
  have hchild : ∀ holder held : Node (outline.toTree language source),
      holder.Owns held → holder.HasChild held := by
    intro holder held ho
    obtain ⟨⟨label, parts⟩, hstands, hall⟩ := hattached.exists_standsAt holder
    exact hstands.hasChild_of_owns hall.here ho
  have habove : root.Above node := ReflTransGen.mono hchild _ _ (hreaches node)
  exact hlisted.mem_iff.2 ⟨root, List.mem_singleton_self root, habove⟩

end Tree

end CodeTree

import CodeTree.Proofs.DraftRun

/-!
# What a builder remembers of its events

The log of a build has an entry for each node in the order of the ids: the node under which it was
added, and what that node was told of it. As long as no step goes wrong, an open node has just its
own entries of the log pending, and a closed one has handed them to its slots (`Kept`). Every step
keeps this, and so does every run; what the entries say besides is what the events say
(`Additions`).
-/

namespace CodeTree

/-- What an event says of the node that it adds. -/
structure Addition where
  kind : NodeKind
  slot : Option Slot
  /-- Whether the node is added as an alternative. -/
  detached : Bool
  deriving DecidableEq

def Event.addition? : Event → Option Addition
  | .start slot kind => some ⟨kind, slot, false⟩
  | .alternative kind => some ⟨kind, some .alternatives, true⟩
  | .finish => none
  | .leaf slot kind _ => some ⟨kind, slot, false⟩

def additions (events : List Event) : List Addition := events.filterMap Event.addition?

namespace Builder

/-- A node that was added, and the node that was open at that time. -/
structure Entry where
  parent : Option NodeId
  added : Added

def Entry.addition (entry : Entry) : Addition :=
  ⟨entry.added.kind, entry.added.slot, entry.added.detached⟩

def addedTo (log : List Entry) (id : NodeId) : List Added :=
  (log.filter fun entry => entry.parent == some id).map (·.added)

theorem addedTo_append (log other : List Entry) (id : NodeId) :
    addedTo (log ++ other) id = addedTo log id ++ addedTo other id := by
  simp [addedTo]

theorem addedTo_single_self {entry : Entry} {id : NodeId} (h : entry.parent = some id) :
    addedTo [entry] id = [entry.added] := by
  simp [addedTo, h]

theorem addedTo_single_of_ne {entry : Entry} {id : NodeId} (h : entry.parent ≠ some id) :
    addedTo [entry] id = [] := by
  simp [addedTo, h]

theorem mem_addedTo {log : List Entry} {id : NodeId} {added : Added} :
    added ∈ addedTo log id ↔ ⟨some id, added⟩ ∈ log := by
  simp only [addedTo, List.mem_map, List.mem_filter, beq_iff_eq]
  constructor
  · rintro ⟨⟨parent, held⟩, ⟨hm, rfl⟩, rfl⟩
    exact hm
  · intro hm
    exact ⟨_, ⟨hm, rfl⟩, rfl⟩

/-- What a closed node stores of the nodes that were added to it. -/
structure Filled (held : List Added) (data : NodeData) : Prop where
  children : data.children = (held.filter (!·.detached)).map (·.id)
  slots : data.slots = distribute data.kind held
  errors : closingErrors data.kind held = []

/-- Whether a log tells what the nodes of a builder came from, when the given nodes are open. -/
structure Kept (nodes : Array NodeData) (stack : List OpenNode) (log : List Entry) : Prop where
  ids : log.map (·.added.id) = List.range nodes.size
  headers : nodes.toList.map (fun data => (data.parent, data.kind)) =
    log.map fun entry => (entry.parent, entry.added.kind)
  parent_lt : ∀ entry ∈ log, ∀ id, entry.parent = some id → id < nodes.size
  nodup : (stack.map (·.id)).Nodup
  opened : ∀ node ∈ stack, node.pending = addedTo log node.id ∧
    nodes[node.id]?.map (·.kind) = some node.kind
  closed : ∀ (id : NodeId) (data : NodeData), nodes[id]? = some data → id ∉ stack.map (·.id) →
    Filled (addedTo log id) data

namespace Kept

variable {nodes : Array NodeData} {stack outer : List OpenNode} {top : OpenNode} {log : List Entry}

theorem nil : Kept #[] [] [] :=
  ⟨rfl, rfl, by simp, List.nodup_nil, by simp, by simp⟩

theorem length_log (h : Kept nodes stack log) : log.length = nodes.size := by
  simpa using congrArg List.length h.ids

theorem addedTo_size (h : Kept nodes stack log) : addedTo log nodes.size = [] := by
  rw [List.eq_nil_iff_forall_not_mem]
  intro added hm
  exact absurd (h.parent_lt _ (mem_addedTo.1 hm) _ rfl) (Nat.lt_irrefl _)

theorem lt_of_mem_stack (h : Kept nodes stack log) {node : OpenNode} (hm : node ∈ stack) :
    node.id < nodes.size := by
  have hkind := (h.opened node hm).2
  by_contra hge
  rw [Array.getElem?_eq_none (Nat.le_of_not_lt hge)] at hkind
  cases hkind

end Kept

theorem map_id_told (stack : List OpenNode) (added : Added) :
    (told stack added).map (·.id) = stack.map (·.id) := by
  cases stack <;> rfl

namespace Kept

variable {nodes : Array NodeData} {stack outer : List OpenNode} {top : OpenNode} {log : List Entry}

theorem opened_told (h : Kept nodes stack log) {added : Added} {data : NodeData}
    {node : OpenNode} (hm : node ∈ told stack added) :
    node.pending = addedTo (log ++ [⟨stack.head?.map (·.id), added⟩]) node.id ∧
      (nodes.push data)[node.id]?.map (·.kind) = some node.kind := by
  have hpush : ∀ (id : NodeId) (kind : NodeKind), nodes[id]?.map (·.kind) = some kind →
      (nodes.push data)[id]?.map (·.kind) = some kind := by
    intro id kind hkind
    obtain ⟨old, hold, hkind⟩ := Option.map_eq_some_iff.1 hkind
    obtain ⟨hlt, -⟩ := Array.getElem?_eq_some_iff.1 hold
    rw [Array.getElem?_push, if_neg (Nat.ne_of_lt hlt), hold, Option.map_some, hkind]
  cases stack with
  | nil => cases hm
  | cons top outer =>
    obtain ⟨hfirst, -⟩ := List.nodup_cons.1 h.nodup
    rw [addedTo_append]
    rcases List.mem_cons.1 hm with rfl | hm
    · obtain ⟨hpending, hkind⟩ := h.opened top List.mem_cons_self
      rw [addedTo_single_self rfl]
      exact ⟨congrArg (· ++ [added]) hpending, hpush _ _ hkind⟩
    · obtain ⟨hpending, hkind⟩ := h.opened node (List.mem_cons_of_mem _ hm)
      have hne : top.id ≠ node.id := fun heq => hfirst (List.mem_map.2 ⟨node, hm, heq.symm⟩)
      rw [addedTo_single_of_ne (by simpa using hne), List.append_nil]
      exact ⟨hpending, hpush _ _ hkind⟩

/-- Adding a node under the innermost open one. The node stays open or, without slots, is closed. -/
theorem push (h : Kept nodes stack log) (added : Added) {span : Span} {fresh : List OpenNode}
    (hid : added.id = nodes.size)
    (hfresh : (fresh = [] ∧ added.kind.slots = []) ∨
      ∃ start detached, fresh = [⟨nodes.size, added.kind, start, detached, []⟩]) :
    Kept (nodes.push ⟨added.kind, span, stack.head?.map (·.id), [], []⟩)
      (fresh ++ told stack added) (log ++ [⟨stack.head?.map (·.id), added⟩]) := by
  have hmem : ∀ id ∈ stack.map (·.id), id < nodes.size := by
    intro id hm
    obtain ⟨node, hnode, rfl⟩ := List.mem_map.1 hm
    exact h.lt_of_mem_stack hnode
  have hlt : ∀ id, stack.head?.map (·.id) = some id → id < nodes.size := by
    intro id hhead
    obtain ⟨node, hnode, rfl⟩ := Option.map_eq_some_iff.1 hhead
    exact h.lt_of_mem_stack (List.mem_of_mem_head? hnode)
  have hnone : addedTo (log ++ [⟨stack.head?.map (·.id), added⟩]) nodes.size = [] := by
    rw [addedTo_append, h.addedTo_size, addedTo_single_of_ne]
    · rfl
    · intro hhead
      exact absurd (hlt _ hhead) (Nat.lt_irrefl _)
  refine ⟨?_, ?_, ?_, ?_, ?_, ?_⟩
  · simp [h.ids, hid, List.range_succ]
  · simp [h.headers]
  · intro entry hm id hparent
    rw [Array.size_push]
    rcases List.mem_append.1 hm with hm | hm
    · exact Nat.lt_succ_of_lt (h.parent_lt entry hm id hparent)
    · rw [List.mem_singleton.1 hm] at hparent
      exact Nat.lt_succ_of_lt (hlt id hparent)
  · rw [List.map_append, map_id_told]
    refine List.Nodup.append ?_ h.nodup ?_
    · rcases hfresh with ⟨rfl, -⟩ | ⟨start, detached, rfl⟩
      · exact List.nodup_nil
      · exact List.nodup_singleton _
    · rcases hfresh with ⟨rfl, -⟩ | ⟨start, detached, rfl⟩
      · simp
      · intro id hid hm
        rw [List.mem_singleton.1 hid] at hm
        exact absurd (hmem _ hm) (Nat.lt_irrefl _)
  · intro node hm
    rcases List.mem_append.1 hm with hm | hm
    · rcases hfresh with ⟨rfl, -⟩ | ⟨start, detached, rfl⟩
      · cases hm
      · rw [List.mem_singleton.1 hm]
        exact ⟨hnone.symm, by simp⟩
    · exact h.opened_told hm
  · intro id data hdata hclosed
    rw [List.map_append, map_id_told, List.mem_append, not_or] at hclosed
    rw [Array.getElem?_push] at hdata
    by_cases hsize : id = nodes.size
    · subst hsize
      rcases hfresh with ⟨rfl, hslots⟩ | ⟨start, detached, rfl⟩
      · rw [if_pos rfl] at hdata
        obtain rfl := Option.some.inj hdata
        rw [hnone]
        exact ⟨rfl, by simp [distribute, hslots], by simp [closingErrors, hslots]⟩
      · exact absurd (List.mem_singleton_self _) hclosed.1
    · rw [if_neg hsize] at hdata
      rw [addedTo_append, addedTo_single_of_ne, List.append_nil]
      · exact h.closed id data hdata hclosed.2
      · intro hhead
        obtain ⟨node, hnode, rfl⟩ := Option.map_eq_some_iff.1 hhead
        exact hclosed.2 (List.mem_map_of_mem (List.mem_of_mem_head? hnode))

theorem close (h : Kept nodes (top :: outer) log)
    (he : closingErrors top.kind top.pending = []) (stop : Nat) :
    Kept (nodes.modify top.id fun data => { data with
      span := ⟨data.span.start, stop⟩
      children := (top.pending.filter (!·.detached)).map (·.id)
      slots := distribute top.kind top.pending }) outer log := by
  obtain ⟨hfirst, hrest⟩ := List.nodup_cons.1 h.nodup
  obtain ⟨hpending, hkind⟩ := h.opened top List.mem_cons_self
  refine ⟨by rw [h.ids, Array.size_modify], ?_, ?_, hrest, ?_, ?_⟩
  · rw [← h.headers, Array.toList_modify]
    apply List.ext_getElem?
    intro i
    rw [List.getElem?_map, List.getElem?_map, List.getElem?_modify]
    cases nodes.toList[i]? with
    | none => rfl
    | some data => by_cases hi : top.id = i <;> simp [hi]
  · rw [Array.size_modify]
    exact h.parent_lt
  · intro node hm
    have hne : top.id ≠ node.id := fun heq => hfirst (List.mem_map.2 ⟨node, hm, heq.symm⟩)
    rw [Array.getElem?_modify, if_neg hne]
    exact h.opened node (List.mem_cons_of_mem _ hm)
  · intro id data hdata hclosed
    rw [Array.getElem?_modify] at hdata
    by_cases hid : top.id = id
    · subst hid
      rw [if_pos rfl] at hdata
      obtain ⟨old, hold, rfl⟩ := Option.map_eq_some_iff.1 hdata
      have hsame : old.kind = top.kind := by
        rw [hold] at hkind
        exact Option.some.inj hkind
      rw [← hpending]
      exact ⟨rfl, by simp only [hsame], by simp only [hsame, he]⟩
    · rw [if_neg hid] at hdata
      exact h.closed id data hdata (by simp [hclosed, Ne.symm hid])

end Kept

variable {builder : Builder} {log : List Entry} {slot : Option Slot} {kind : NodeKind}
  {text : String} {event : Event} {events : List Event}

def entryOf (builder : Builder) (addition : Addition) : Entry :=
  ⟨builder.stack.head?.map (·.id),
    ⟨builder.nodes.size, addition.kind, addition.slot, addition.detached⟩⟩

theorem openNode_of_errors {detached : Bool}
    (he : (builder.openNode slot kind detached).errors = []) :
    builder.openNode slot kind detached = builder.entered slot kind detached := by
  obtain ⟨-, ht, hl, hfirst⟩ := of_errors_openNode he
  rw [builder.openNode_eq_entered hfirst, unopenable_eq_nil_iff.2 ⟨ht, hl⟩, List.append_nil]
  rfl

theorem addLeaf_of_errors (he : (builder.addLeaf slot kind text).errors = []) :
    ∃ span, (builder.addLeaf slot kind text).nodes = (builder.push kind span slot false).nodes ∧
      (builder.addLeaf slot kind text).stack = (builder.push kind span slot false).stack := by
  obtain ⟨-, -, -, hstack, hfits⟩ := of_errors_addLeaf he
  cases hr : builder.replays with
  | nil =>
    rw [builder.addLeaf_read hstack hr]
    exact ⟨_, rfl, rfl⟩
  | cons replay outer =>
    rw [builder.addLeaf_replay hstack hr, if_pos (hfits replay outer hr)]
    exact ⟨_, rfl, rfl⟩

theorem kept_openNode {detached : Bool} (h : Kept builder.nodes builder.stack log)
    (he : (builder.openNode slot kind detached).errors = []) :
    Kept (builder.openNode slot kind detached).nodes (builder.openNode slot kind detached).stack
      (log ++ [builder.entryOf ⟨kind, slot, detached⟩]) := by
  rw [openNode_of_errors he, entered, push_eq]
  exact h.push ⟨builder.nodes.size, kind, slot, detached⟩ rfl (.inr ⟨_, _, rfl⟩)

theorem kept_addLeaf (h : Kept builder.nodes builder.stack log)
    (he : (builder.addLeaf slot kind text).errors = []) :
    Kept (builder.addLeaf slot kind text).nodes (builder.addLeaf slot kind text).stack
      (log ++ [builder.entryOf ⟨kind, slot, false⟩]) := by
  obtain ⟨span, hnodes, hstack⟩ := addLeaf_of_errors he
  obtain ⟨-, ht, -⟩ := of_errors_addLeaf he
  rw [hnodes, hstack, push_eq]
  exact h.push ⟨builder.nodes.size, kind, slot, false⟩ rfl
    (.inl ⟨rfl, NodeKind.slots_of_isTerminal ht⟩)

theorem kept_closeNode (h : Kept builder.nodes builder.stack log)
    (he : builder.closeNode.errors = []) :
    Kept builder.closeNode.nodes builder.closeNode.stack log := by
  obtain ⟨-, node, outer, hstack, herrors⟩ := of_errors_closeNode he
  rw [builder.closeNode_eq_left hstack]
  rw [hstack] at h
  exact h.close herrors builder.position

theorem kept_step (h : Kept builder.nodes builder.stack log)
    (he : (builder.step event).errors = []) :
    Kept (builder.step event).nodes (builder.step event).stack
      (log ++ (event.addition?.map builder.entryOf).toList) := by
  cases event with
  | start slot kind => exact kept_openNode h he
  | alternative kind =>
    obtain ⟨owner, outer, -, -, hopen⟩ := of_errors_openAlternative he
    rw [step, hopen] at he ⊢
    exact kept_openNode h he
  | finish =>
    rw [Event.addition?, Option.map_none, Option.toList_none, List.append_nil]
    exact kept_closeNode h he
  | leaf slot kind text => exact kept_addLeaf h he

/-- A run that goes well has a log of what its events say. -/
theorem exists_kept_run (h : Kept builder.nodes builder.stack log)
    (he : (builder.run events).errors = []) :
    ∃ entries, Kept (builder.run events).nodes (builder.run events).stack (log ++ entries) ∧
      entries.map Entry.addition = additions events := by
  induction events generalizing builder log with
  | nil => exact ⟨[], by simpa using h, rfl⟩
  | cons event rest ih =>
    rw [run_cons] at he ⊢
    obtain ⟨entries, hkept, hadditions⟩ := ih (kept_step h (of_errors_run he)) he
    refine ⟨(event.addition?.map builder.entryOf).toList ++ entries, ?_, ?_⟩
    · rwa [List.append_assoc] at hkept
    · rw [List.map_append, hadditions, additions, additions]
      cases event <;> rfl

end Builder

end CodeTree

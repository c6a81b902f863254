import CodeTree.Proofs.Endings
import CodeTree.Proofs.OutlineSound
import CodeTree.Proofs.Roles

/-!
# Calls and functions of valid trees

A query succeeds at the nodes whose kind has the capability, and at no others. The slots it reads
are declared by the kinds at which it reads them (`NodeKind.Readable`), and in a valid tree a
declared slot can be read. Since none of these kinds is a variation point, what a slot holds are
children, so whatever a query finds is below the node through children. The chain of declarators
ends because it goes down, and from a node below the root whatever goes down a valid tree ends.
-/

namespace CodeTree

open Relation

namespace Node

variable {tree : Tree}

def Below (node held : Node tree) : Prop := TransGen HasChild node held

theorem HasChild.below {node child : Node tree} (h : node.HasChild child) : node.Below child :=
  .single h

/-- A node below another, and inside the range of the source that the other covers. -/
structure Inside (node held : Node tree) : Prop where
  below : node.Below held
  start_le : node.span.start ≤ held.span.start
  stop_le : held.span.stop ≤ node.span.stop

/-- What a query for a capability gives at a node: an answer with a property if the kind of the node
has the capability, and otherwise the error that names both. -/
structure Answers {α : Type} (node : Node tree) (capability : Capability)
    (read : Except QueryError α) (P : α → Prop) : Prop where
  ok_iff : (∃ answer, read = .ok answer) ↔ node.has capability = true
  refused : node.has capability = false →
    read = .error (.capabilityNotSupported node.kind capability)
  answer : ∀ answer, read = .ok answer → P answer

theorem Answers.of {α : Type} {node : Node tree} {capability : Capability}
    {read : Except QueryError α} {P : α → Prop}
    (hyes : node.has capability = true → ∃ answer, read = .ok answer ∧ P answer)
    (hno : node.has capability = false →
      read = .error (.capabilityNotSupported node.kind capability)) :
    node.Answers capability read P := by
  cases hc : node.has capability with
  | true =>
    obtain ⟨answer, rfl, hp⟩ := hyes hc
    refine ⟨⟨fun _ => hc, fun _ => ⟨answer, rfl⟩⟩, fun h => ?_, fun other ho => ?_⟩
    · rw [hc] at h
      cases h
    · cases ho
      exact hp
  | false =>
    rw [hno hc]
    refine ⟨⟨?_, fun h => ?_⟩, fun _ => rfl, fun other ho => ?_⟩
    · rintro ⟨other, ho⟩
      cases ho
    · rw [hc] at h
      cases h
    · cases ho

theorem exists_single_of_slotValue {node : Node tree} {slot : Slot} {decl : SlotDecl}
    (hd : node.kind.slot? slot = some decl) (ha : decl.arity = .one) {value : SlotValue tree}
    (hv : node.slotValue slot = .ok value) : ∃ held, value = .single (some held) := by
  obtain ⟨hm, hslot⟩ := NodeKind.slot?_eq_some_iff.1 hd
  rw [slotValue] at hv
  cases hindex : node.kind.slotIndex? slot with
  | none =>
    rw [hindex] at hv
    cases hv
  | some position =>
    obtain ⟨hlt, hat⟩ := NodeKind.slotIndex?_eq_some_iff.1 hindex
    have hdecl : node.kind.slots[position] = decl :=
      NodeKind.eq_of_slot_eq (List.getElem_mem hlt) hm (hat.trans hslot.symm)
    simp only [hindex, slotAt, List.getElem?_eq_getElem hlt, hdecl] at hv
    cases hids : node.data.slots[position]? with
    | none =>
      rw [hids] at hv
      cases hv
    | some ids =>
      simp only [hids, bind, Except.bind, ha] at hv
      rcases ids with _ | ⟨id, _ | ⟨other, ids⟩⟩
      · cases hv
      · simp only at hv
        obtain ⟨held, -, hv⟩ := bind_eq_ok_iff.1 hv
        cases hv
        exact ⟨held, rfl⟩
      · cases hv

theorem kind_ne_of_has {node : Node tree} {kind : NodeKind} {capability : Capability}
    (hk : kind.has capability = false) (h : node.has capability = true) : node.kind ≠ kind := by
  intro he
  rw [has, he, hk] at h
  cases h

end Node

namespace Tree

open Node

variable {tree : Tree} {node : Node tree}

theorem Valid.hasChild_of_hasParent (h : tree.Valid) (hk : node.kind ≠ .special .variationPoint)
    {held : Node tree} (hp : held.HasParent node) : node.HasChild held := by
  have howned : held.id ∈ node.data.owned := h.owns_iff.2 hp
  have hdata : node.data.kind ≠ .special .variationPoint := hk
  rwa [NodeData.owned, Outline.flatMap_alternatives_nil hdata, List.append_nil] at howned

theorem Valid.inside (h : tree.Valid) {held : Node tree} (hb : node.Below held) :
    node.Inside held := by
  have hstep : ∀ {parent child : Node tree}, parent.HasChild child →
      parent.span.start ≤ child.span.start ∧ child.span.stop ≤ parent.span.stop := by
    intro parent child hc
    obtain ⟨children, hok, -, -, hspans⟩ := h.exists_children parent
    have hm := (hasChild_iff hok).1 hc
    exact (hspans (List.ne_nil_of_mem hm)).within (List.mem_map_of_mem hm)
  refine ⟨hb, ?_, ?_⟩
  · induction hb with
    | single hc => exact (hstep hc).1
    | tail _ hc ih => exact Nat.le_trans ih (hstep hc).1
  · induction hb with
    | single hc => exact (hstep hc).2
    | tail _ hc ih => exact Nat.le_trans (hstep hc).2 ih

theorem Valid.exists_slotChildren (h : tree.Valid) (hk : node.kind ≠ .special .variationPoint)
    {slot : Slot} (hs : node.kind.declares slot = true) :
    ∃ value, node.slotValue slot = .ok value ∧ ∀ held ∈ value.nodes, node.HasChild held := by
  obtain ⟨value, hvalue, hparents⟩ := h.exists_slotValue node hs
  refine ⟨value, hvalue, fun held hm => ?_⟩
  exact h.hasChild_of_hasParent hk (hasParent_iff.2 (hparents held hm))

theorem Valid.exists_firstChild (h : tree.Valid) (hk : node.kind ≠ .special .variationPoint)
    {slot : Slot} (hs : node.kind.declares slot = true) :
    ∃ first, node.first slot = .ok first ∧ ∀ held ∈ first, node.HasChild held := by
  obtain ⟨first, hfirst, hparents⟩ := h.exists_first node hs
  exact ⟨first, hfirst, fun held hm => h.hasChild_of_hasParent hk (hparents held hm)⟩

/-- The `items` of a list node. Whichever kind declares them declares them as a plural slot. -/
theorem Valid.exists_manyItems (h : tree.Valid) (hs : node.kind.declares .items = true) :
    ∃ items, node.many .items = .ok items ∧ ∀ held ∈ items, node.HasChild held := by
  have hk : node.kind ≠ .special .variationPoint := NodeKind.ne_of_declares (by decide) hs
  obtain ⟨value, hvalue, hchildren⟩ := h.exists_slotChildren hk hs
  obtain ⟨decl, hdecl⟩ := Option.isSome_iff_exists.1 hs
  have harity : decl.arity = .many := node.kind.readable.arity_of_items decl hdecl
  refine ⟨value.nodes, ?_, hchildren⟩
  rw [many, expectArity, NodeKind.requireSlot, hdecl]
  simp only [bind, Except.bind, harity, canRead, hvalue, ensure]
  rfl

theorem Valid.exists_one (h : tree.Valid) (hk : node.kind ≠ .special .variationPoint)
    {slot : Slot} {decl : SlotDecl} (hd : node.kind.slot? slot = some decl)
    (ha : decl.arity = .one) : ∃ held, node.one slot = .ok held ∧ node.HasChild held := by
  have hs : node.kind.declares slot = true := by rw [NodeKind.declares, hd, Option.isSome_some]
  obtain ⟨value, hvalue, hchildren⟩ := h.exists_slotChildren hk hs
  obtain ⟨held, rfl⟩ := exists_single_of_slotValue hd ha hvalue
  refine ⟨held, ?_, hchildren held (by simp [SlotValue.nodes])⟩
  rw [one, expectArity, NodeKind.requireSlot, hd]
  simp only [bind, Except.bind, ha, canRead, hvalue, ensure]
  rfl

/-- The nodes of a slot, list nodes replaced by their items, are below the node. -/
theorem Valid.exists_items (h : tree.Valid) (hk : node.kind ≠ .special .variationPoint)
    {slot : Slot} (hs : node.kind.declares slot = true) :
    ∃ items, node.items slot = .ok items ∧ ∀ held ∈ items, node.Below held := by
  obtain ⟨value, hvalue, hchildren⟩ := h.exists_slotChildren hk hs
  have hparts : ∀ held ∈ value.nodes, ∃ part,
      (if held.kind.declares .items then held.many .items else .ok [held]) = .ok part ∧
        ∀ item ∈ part, node.Below item := by
    intro held hm
    have hheld := hchildren held hm
    by_cases hitems : held.kind.declares .items = true
    · obtain ⟨part, hpart, hinner⟩ := h.exists_manyItems hitems
      rw [if_pos hitems]
      exact ⟨part, hpart, fun item hi => hheld.below.tail (hinner item hi)⟩
    · rw [if_neg hitems]
      refine ⟨[held], rfl, fun item hi => ?_⟩
      rw [List.mem_singleton.1 hi]
      exact hheld.below
  obtain ⟨parts, hok, hall⟩ := exists_mapM_forall hparts
  refine ⟨parts.flatten, ?_, fun item hi => ?_⟩
  · rw [items, hvalue]
    simp only [bind, Except.bind, hok]
    rfl
  · obtain ⟨part, hpart, hm⟩ := List.mem_flatten.1 hi
    exact hall part hpart item hm

theorem Valid.below_of_chainWithin (h : tree.Valid) (bound : Nat) {held : Option (Node tree)}
    {chain : List (Node tree)} (hc : chainWithin bound held = .ok (some chain))
    (hb : ∀ first ∈ held, node.Below first) : ∀ link ∈ chain, node.Below link := by
  induction bound generalizing held chain with
  | zero =>
    cases held with
    | none =>
      cases hc
      simp
    | some first => cases hc
  | succ bound ih =>
    cases held with
    | none =>
      cases hc
      simp
    | some first =>
      have hfirst : node.Below first := hb first rfl
      have hgo : ∀ next : Option (Node tree), (∀ second ∈ next, node.Below second) →
          (do return (← chainWithin bound next).map (first :: ·)) = Except.ok (some chain) →
            ∀ link ∈ chain, node.Below link := by
        intro next hb hc
        obtain ⟨rest, hrest, hc⟩ := bind_eq_ok_iff.1 hc
        obtain ⟨others, rfl, rfl⟩ := Option.map_eq_some_iff.1 (Except.ok.inj hc)
        exact List.forall_mem_cons.2 ⟨hfirst, ih hrest hb⟩
      rw [chainWithin] at hc
      split at hc
      · next hs =>
        have hk : first.kind ≠ .special .variationPoint := NodeKind.ne_of_declares (by decide) hs
        obtain ⟨next, hnext, hchildren⟩ := h.exists_firstChild hk hs
        rw [hnext] at hc
        exact hgo next (fun second hm => hfirst.tail (hchildren second hm)) hc
      · exact hgo none (by simp) hc

theorem Valid.exists_chainBelow (h : tree.Valid) (hk : node.kind ≠ .special .variationPoint)
    {depth : Nat} (hd : AtDepth depth node) {slot : Slot}
    (hs : node.kind.declares slot = true) :
    ∃ chain, node.declaratorChain slot = .ok chain ∧ ∀ link ∈ chain, node.Below link := by
  obtain ⟨chain, hchain⟩ := h.exists_declaratorChain hd hs
  obtain ⟨first, hfirst, hchildren⟩ := h.exists_firstChild hk hs
  refine ⟨chain, hchain, ?_⟩
  rw [declaratorChain] at hchain
  obtain ⟨held, hheld, hchain⟩ := bind_eq_ok_iff.1 hchain
  cases hfirst.symm.trans hheld
  obtain ⟨links, hlinks, hchain⟩ := bind_eq_ok_iff.1 hchain
  cases links with
  | none => cases hchain
  | some links =>
    cases hchain
    exact h.below_of_chainWithin _ hlinks fun held hm => (hchildren held hm).below

theorem Valid.exists_readList (h : tree.Valid) (hk : node.kind ≠ .special .variationPoint)
    {depth : Nat} (hd : AtDepth depth node) {rule : ListRule}
    (hs : ∀ slot ∈ rule.slot?, node.kind.declares slot = true) :
    ∃ items, node.readList rule = .ok items ∧ ∀ held ∈ items, node.Below held := by
  cases rule with
  | items slot => exact h.exists_items hk (hs slot rfl)
  | declarator slot =>
    obtain ⟨chain, hchain, hlinks⟩ := h.exists_chainBelow hk hd (hs slot rfl)
    rw [readList, hchain]
    simp only [bind, Except.bind]
    cases hfind : chain.reverse.find? (·.kind.declares .parameters) with
    | none => exact ⟨[], rfl, by simp⟩
    | some link =>
      have hparameters : link.kind.declares .parameters = true := by
        simpa using List.find?_some hfind
      have hpoint : link.kind ≠ .special .variationPoint :=
        NodeKind.ne_of_declares (by decide) hparameters
      obtain ⟨items, hitems, hbelow⟩ := h.exists_items hpoint hparameters
      have hlink := hlinks link (List.mem_reverse.1 (List.mem_of_find?_eq_some hfind))
      exact ⟨items, hitems, fun held hm => hlink.trans (hbelow held hm)⟩
  | absent => exact ⟨[], rfl, by simp⟩

theorem Valid.exists_nameNode (h : tree.Valid) (hk : node.kind ≠ .special .variationPoint)
    {depth : Nat} (hd : AtDepth depth node) {rule : NameRule}
    (hs : ∀ slot ∈ rule.slot?, node.kind.declares slot = true) :
    ∃ name, node.nameNode rule = .ok name ∧ ∀ held ∈ name, node.Below held := by
  cases rule with
  | slot slot =>
    obtain ⟨first, hfirst, hchildren⟩ := h.exists_firstChild hk (hs slot rfl)
    exact ⟨first, hfirst, fun held hm => (hchildren held hm).below⟩
  | declarator slot =>
    obtain ⟨chain, hchain, hlinks⟩ := h.exists_chainBelow hk hd (hs slot rfl)
    refine ⟨chain.find? (·.has .identifier), ?_, fun held hm => ?_⟩
    · rw [nameNode, hchain]
      rfl
    · exact hlinks held (List.mem_of_find?_eq_some hm)
  | anonymous => exact ⟨none, rfl, by simp⟩

theorem callRule_of_not_has (hc : node.has .call = false) :
    node.callRule = .error (.capabilityNotSupported node.kind .call) := by
  rw [callRule, require, hc]
  rfl

theorem functionRule_of_not_has (hc : node.has .function = false) :
    node.functionRule = .error (.capabilityNotSupported node.kind .function) := by
  rw [functionRule, require, hc]
  rfl

theorem exists_callRule (hc : node.has .call = true) :
    ∃ rule, node.callRule = .ok rule ∧ node.kind.role = .call rule := by
  obtain ⟨rule, hrole⟩ := NodeKind.exists_callRule hc
  refine ⟨rule, ?_, hrole⟩
  rw [callRule, require, hc, hrole]
  rfl

theorem exists_functionRule (hc : node.has .function = true) :
    ∃ rule, node.functionRule = .ok rule ∧ node.kind.role = .function rule := by
  obtain ⟨rule, hrole⟩ := NodeKind.exists_functionRule hc
  refine ⟨rule, ?_, hrole⟩
  rw [functionRule, require, hc, hrole]
  rfl

theorem Valid.answers_callee (h : tree.Valid) (node : Node tree) :
    node.Answers .call node.callee node.Inside := by
  refine .of (fun hc => ?_) fun hc => ?_
  · obtain ⟨rule, hrule, hrole⟩ := exists_callRule hc
    obtain ⟨decl, hdecl, harity⟩ := NodeKind.exists_calleeDecl hrole
    obtain ⟨held, hheld, hchild⟩ := h.exists_one (kind_ne_of_has (by decide) hc) hdecl harity
    refine ⟨held, ?_, h.inside hchild.below⟩
    rw [callee, hrule]
    simp only [bind, Except.bind, hheld]
    rfl
  · rw [callee, callRule_of_not_has hc]
    rfl

theorem Valid.answers_callArguments (h : tree.Valid) {depth : Nat} (hd : AtDepth depth node) :
    node.Answers .call node.callArguments fun arguments =>
      ∀ argument ∈ arguments, node.Inside argument := by
  refine .of (fun hc => ?_) fun hc => ?_
  · obtain ⟨rule, hrule, hrole⟩ := exists_callRule hc
    obtain ⟨items, hitems, hbelow⟩ := h.exists_readList (kind_ne_of_has (by decide) hc) hd
      fun _ hs => NodeKind.declares_of_callRule hrole hs
    refine ⟨items, ?_, fun argument hm => h.inside (hbelow argument hm)⟩
    rw [callArguments, hrule]
    simp only [bind, Except.bind, hitems]
    rfl
  · rw [callArguments, callRule_of_not_has hc]
    rfl

theorem Valid.answers_functionName (h : tree.Valid) {depth : Nat} (hd : AtDepth depth node) :
    node.Answers .function node.functionName fun name =>
      ∀ text ∈ name, ∃ held, node.Inside held ∧ held.text = .ok text := by
  refine .of (fun hc => ?_) fun hc => ?_
  · obtain ⟨rule, hrule, hrole⟩ := exists_functionRule hc
    obtain ⟨name, hname, hbelow⟩ := h.exists_nameNode (kind_ne_of_has (by decide) hc) hd
      fun _ hs => NodeKind.declares_of_nameRule hrole hs
    rw [functionName, hrule]
    simp only [bind, Except.bind, hname]
    cases name with
    | none => exact ⟨none, rfl, by simp⟩
    | some held =>
      obtain ⟨text, htext⟩ : ∃ text, held.text = .ok text := ⟨_, h.text_eq held⟩
      refine ⟨some text, ?_, fun other ho => ?_⟩
      · change ((liftM held.text : Except QueryError String) >>= fun text => .ok (some text)) = _
        rw [htext]
        rfl
      · cases ho
        exact ⟨held, h.inside (hbelow held rfl), htext⟩
  · rw [functionName, functionRule_of_not_has hc]
    rfl

theorem Valid.answers_functionParameters (h : tree.Valid) {depth : Nat}
    (hd : AtDepth depth node) :
    node.Answers .function node.functionParameters fun parameters =>
      ∀ parameter ∈ parameters, node.Inside parameter := by
  refine .of (fun hc => ?_) fun hc => ?_
  · obtain ⟨rule, hrule, hrole⟩ := exists_functionRule hc
    have hread : ∀ list ∈ rule.parameters, ∃ items, node.readList list = .ok items ∧
        ∀ held ∈ items, node.Below held := fun list hl =>
      h.exists_readList (kind_ne_of_has (by decide) hc) hd
        fun _ hs => NodeKind.declares_of_parameterRule hrole hl hs
    obtain ⟨lists, hlists, hbelow⟩ := exists_mapM_forall hread
    refine ⟨lists.flatten, ?_, fun parameter hm => ?_⟩
    · rw [functionParameters, hrule]
      simp only [bind, Except.bind, hlists]
      rfl
    · obtain ⟨list, hlist, hm⟩ := List.mem_flatten.1 hm
      exact h.inside (hbelow list hlist parameter hm)
  · rw [functionParameters, functionRule_of_not_has hc]
    rfl

theorem Valid.answers_functionBody (h : tree.Valid) (node : Node tree) :
    node.Answers .function node.functionBody fun body =>
      ∀ held ∈ body, node.HasChild held ∧ node.Inside held := by
  refine .of (fun hc => ?_) fun hc => ?_
  · obtain ⟨rule, hrule, hrole⟩ := exists_functionRule hc
    obtain ⟨body, hbody, hchildren⟩ := h.exists_firstChild (kind_ne_of_has (by decide) hc)
      (NodeKind.declares_body hrole)
    refine ⟨body, ?_, fun held hm => ?_⟩
    · rw [functionBody, hrule]
      simp only [bind, Except.bind, hbody]
      rfl
    · exact ⟨hchildren held hm, h.inside (hchildren held hm).below⟩
  · rw [functionBody, functionRule_of_not_has hc]
    rfl

/-- The nodes below the root that have a capability can be listed, and each of them has a depth. -/
theorem Valid.exists_nodesWith (h : tree.Valid) (capability : Capability) :
    ∃ nodes, tree.nodesWith capability = .ok nodes ∧
      ∀ node ∈ nodes, (∃ depth, AtDepth depth node) ∧ node.has capability = true := by
  obtain ⟨root, hroot, -⟩ := h.exists_root
  have hdepth : AtDepth 0 root := .root (id_of_root hroot)
  obtain ⟨nodes, hnodes, hlisted, -, -⟩ := h.exists_descendants hdepth
  refine ⟨nodes.filter (·.has capability), ?_, fun node hm => ?_⟩
  · rw [nodesWith, hroot]
    simp only [bind, Except.bind, hnodes]
    rfl
  · obtain ⟨hm, hc⟩ := List.mem_filter.1 hm
    obtain ⟨other, hother, habove⟩ := hlisted.mem_iff.1 hm
    rw [List.mem_singleton.1 hother] at habove
    obtain ⟨depth, hd, -, -⟩ := h.exists_depth_of_above habove hdepth
    exact ⟨⟨depth, hd⟩, hc⟩

theorem Valid.exists_calls (h : tree.Valid) :
    ∃ calls, tree.calls = .ok calls ∧ ∀ read ∈ calls, ∃ call, read = .ok call := by
  obtain ⟨nodes, hnodes, hall⟩ := h.exists_nodesWith .call
  refine ⟨nodes.map callParts, ?_, fun read hm => ?_⟩
  · rw [calls, hnodes]
    rfl
  · obtain ⟨node, hnode, rfl⟩ := List.mem_map.1 hm
    obtain ⟨⟨depth, hd⟩, hc⟩ := hall node hnode
    obtain ⟨callee, hcallee⟩ := (h.answers_callee node).ok_iff.2 hc
    obtain ⟨arguments, harguments⟩ := (h.answers_callArguments hd).ok_iff.2 hc
    rw [callParts, hcallee, harguments]
    exact ⟨_, rfl⟩

theorem Valid.exists_functions (h : tree.Valid) :
    ∃ functions, tree.functions = .ok functions ∧
      ∀ read ∈ functions, ∃ shape, read = .ok shape := by
  obtain ⟨nodes, hnodes, hall⟩ := h.exists_nodesWith .function
  refine ⟨nodes.map functionParts, ?_, fun read hm => ?_⟩
  · rw [functions, hnodes]
    rfl
  · obtain ⟨node, hnode, rfl⟩ := List.mem_map.1 hm
    obtain ⟨⟨depth, hd⟩, hc⟩ := hall node hnode
    obtain ⟨name, hname⟩ := (h.answers_functionName hd).ok_iff.2 hc
    obtain ⟨parameters, hparameters⟩ := (h.answers_functionParameters hd).ok_iff.2 hc
    obtain ⟨body, hbody⟩ := (h.answers_functionBody node).ok_iff.2 hc
    rw [functionParts, hname, hparameters, hbody]
    exact ⟨_, rfl⟩

/-- At every node that is reached from the root of a valid tree, of whatever language, each query
succeeds if the kind of the node has the capability asked for, and otherwise says that it has not.
What is found is below the node through children and inside its range, and the body is a child. So
all calls and all functions of the tree can be read. -/
theorem Valid.queries (tree : Tree) (h : tree.Valid) :
    ∃ root, tree.root = .ok root ∧
      (∀ node, root.Reaches node →
        node.Answers .call node.callee node.Inside ∧
        (node.Answers .call node.callArguments fun arguments =>
          ∀ argument ∈ arguments, node.Inside argument) ∧
        (node.Answers .function node.functionName fun name =>
          ∀ text ∈ name, ∃ held, node.Inside held ∧ held.text = .ok text) ∧
        (node.Answers .function node.functionParameters fun parameters =>
          ∀ parameter ∈ parameters, node.Inside parameter) ∧
        (node.Answers .function node.functionBody fun body =>
          ∀ held ∈ body, node.HasChild held ∧ node.Inside held)) ∧
      (∃ calls, tree.calls = .ok calls ∧ ∀ read ∈ calls, ∃ call, read = .ok call) ∧
      ∃ functions, tree.functions = .ok functions ∧
        ∀ read ∈ functions, ∃ shape, read = .ok shape := by
  obtain ⟨root, hroot, -⟩ := h.exists_root
  refine ⟨root, hroot, fun node hr => ?_, h.exists_calls, h.exists_functions⟩
  obtain ⟨depth, hd⟩ := h.exists_depth_of_reaches hr (.root (id_of_root hroot))
  exact ⟨h.answers_callee node, h.answers_callArguments hd, h.answers_functionName hd,
    h.answers_functionParameters hd, h.answers_functionBody node⟩

def kindOfC (name : String) : NodeKind := (NodeKind.resolve? .c name).getD (.special .terminal)

/-- The tree of `*f(){}`, where the declarator of the function is inside that of a pointer. -/
def pointerFunction : Tree :=
  .ofParts .c "*f()\x7b\x7d" #[⟨kindOfC "translation_unit", ⟨0, 6⟩, none, [1], [[1]]⟩,
    ⟨kindOfC "function_definition", ⟨0, 6⟩, some 0, [2, 8], [[], [2], [8]]⟩,
    ⟨kindOfC "pointer_declarator", ⟨0, 4⟩, some 1, [3, 4], [[4]]⟩,
    ⟨.special .terminalSymbol, ⟨0, 1⟩, some 2, [], []⟩,
    ⟨kindOfC "function_declarator", ⟨1, 4⟩, some 2, [5, 6], [[5], [6]]⟩,
    ⟨kindOfC "identifier", ⟨1, 2⟩, some 4, [], []⟩,
    ⟨kindOfC "parameter_list", ⟨2, 4⟩, some 4, [7], [[]]⟩,
    ⟨.special .terminalSymbol, ⟨2, 4⟩, some 6, [], []⟩,
    ⟨kindOfC "compound_statement", ⟨4, 6⟩, some 1, [9], [[]]⟩,
    ⟨.special .terminalSymbol, ⟨4, 6⟩, some 8, [], []⟩]

theorem queries_pointerFunction :
    pointerFunction.Valid ∧ ∃ root node, pointerFunction.root = .ok root ∧ root.Reaches node ∧
      node.callee = .error (.capabilityNotSupported node.kind .call) ∧
      node.functionName = .ok (some "f") ∧ ∃ held, node.Inside held ∧ held.text = .ok "f" := by
  have hv : pointerFunction.Valid := by decide +kernel
  let node : Node pointerFunction := ⟨1, by decide +kernel⟩
  obtain ⟨root, hroot, hnodes, -, -⟩ := Valid.queries pointerFunction hv
  have howns : root.Owns node := by
    rw [hv.owns_iff, hasParent_iff, id_of_root hroot]
    decide +kernel
  have hname : node.functionName = .ok (some "f") := by decide +kernel
  obtain ⟨hcallee, -, hnamed, -, -⟩ := hnodes node (.single howns)
  exact ⟨hv, root, node, hroot, .single howns, hcallee.refused (by decide +kernel), hname,
    hnamed.answer _ hname "f" rfl⟩

end Tree

end CodeTree

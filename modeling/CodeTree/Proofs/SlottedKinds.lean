import CodeTree.Proofs.EventOrder
import CodeTree.Proofs.ListReads
import CodeTree.Proofs.LoweringResult

/-!
# What lowering puts in slots

A node comes into a slot because its event names the slot, or because the rest slot takes it. The
rest slot takes neither trivia nor terminal symbols. Lowering gives no slot to whitespace, comments,
uncovered text and tokens that spell a symbol, so no slot holds trivia. It gives one to an unnamed
token when the token's field says so: where a field is left to named nodes, no token is given its
slot (`Event.Spares`). With the fields of lists left to them, arguments and parameters are neither
trivia nor terminal symbols, however the list they stand in was lowered.
-/

namespace CodeTree

/-- Whether some fields are left to named nodes. -/
def Concrete.LeavesToNamed (fields : List String) (root : Concrete) : Prop :=
  root.All fun head _ => ∀ field ∈ head.field, field ∈ fields → head.named = true

instance (fields : List String) (root : Concrete) : Decidable (root.LeavesToNamed fields) :=
  inferInstanceAs (Decidable (root.All _))

theorem NodeKind.isNamed_iff {kind : NodeKind} :
    kind.isNamed = true ↔ kind.isTrivia = false ∧ kind.isTerminalSymbol = false := by
  simp [isNamed]

/-- Whether an event puts no trivia into a slot, and into some slots no terminal symbol either. -/
def Event.Spares (slots : List Slot) (event : Event) : Prop :=
  ∀ addition ∈ event.addition?, ∀ slot ∈ addition.slot,
    addition.kind.isTrivia = false ∧ (slot ∈ slots → addition.kind.isNamed = true)

section

variable {slots : List Slot} {slot : Option Slot} {kind : NodeKind} {text : String}

theorem spares_leaf (h : ∀ place ∈ slot, kind.isTrivia = false ∧
    (place ∈ slots → kind.isNamed = true)) : (Event.leaf slot kind text).Spares slots := by
  intro addition ha
  cases ha
  exact h

theorem spares_named (h : kind.isNamed = true) : (Event.leaf slot kind text).Spares slots :=
  spares_leaf fun _ _ => ⟨(NodeKind.isNamed_iff.1 h).1, fun _ => h⟩

theorem spares_start (h : kind.isNamed = true) : (Event.start slot kind).Spares slots := by
  intro addition ha _ _
  cases ha
  exact ⟨(NodeKind.isNamed_iff.1 h).1, fun _ => h⟩

theorem spares_alternative (h : kind.isNamed = true) : (Event.alternative kind).Spares slots := by
  intro addition ha _ _
  cases ha
  exact ⟨(NodeKind.isNamed_iff.1 h).1, fun _ => h⟩

theorem spares_finish : Event.finish.Spares slots := by
  intro addition ha
  cases ha

end

namespace Lowering

variable {setting : Setting} {slots : List Slot} {pos stop : Nat} {emitted : Emitted}

theorem spares_gap : ∀ event ∈ (gap setting pos stop).events, event.Spares slots := by
  intro event hm
  rw [gap] at hm
  split at hm
  · cases hm
  · obtain rfl := List.mem_singleton.1 hm
    split <;> exact spares_leaf (by simp)

theorem spares_thenGap (h : ∀ event ∈ emitted.events, event.Spares slots) :
    ∀ event ∈ (emitted.thenGap setting stop).events, event.Spares slots := by
  rw [Emitted.thenGap, List.forall_mem_append]
  exact ⟨h, spares_gap⟩

theorem spares_node {slot : Option Slot} {kind : NodeKind} (hk : kind.isNamed = true)
    (h : ∀ event ∈ emitted.events, event.Spares slots) :
    ∀ event ∈ [Event.start slot kind] ++ emitted.events ++ [Event.finish],
      event.Spares slots := by
  simp only [List.forall_mem_append, List.forall_mem_singleton]
  exact ⟨⟨spares_start hk, h⟩, spares_finish⟩

theorem spares_errorRegion {points : Bool} {slot : Option Slot} {below : Below}
    (h : ∀ event ∈ (below false (.special .parseError) pos).events, event.Spares slots) :
    ∀ event ∈ (errorRegion setting points pos slot stop below).events, event.Spares slots := by
  have hraw : ∀ (slot : Option Slot) (text : String), (Event.error slot text).Spares slots :=
    fun _ _ => spares_named (by decide)
  cases points with
  | false =>
    rw [errorRegion]
    simpa using hraw slot _
  | true =>
    rw [errorRegion]
    simp only [if_true, List.forall_mem_append, List.forall_mem_cons]
    exact ⟨⟨⟨spares_start (by decide), hraw _ _, spares_alternative (by decide), by simp⟩,
      spares_thenGap (spares_thenGap h)⟩, spares_finish, spares_finish, by simp⟩

theorem isNamed_openedKind {language : Language} {kind : NodeKind} {children : List Concrete}
    (h : kind.language? = some language) :
    (openedKind setting pos kind children).isNamed = true := by
  rw [openedKind]
  split
  · exact NodeKind.isNamed_of_language h
  · decide

theorem isNamed_rootKind (root : Concrete) : (rootKind setting root).isNamed = true := by
  rw [rootKind]
  split
  · next hk =>
    split
    · decide
    · rw [kindOf?_eq] at hk
      exact isNamed_openedKind (Concrete.Head.language_of_kind? hk)
  · decide

theorem leafKind_cases (language : Language) (head : Concrete.Head) :
    (Translation.leafKind language head).isTrivia = false ∧
      (head.named = true → (Translation.leafKind language head).isNamed = true) := by
  rw [Translation.leafKind]
  split
  · next hn => exact ⟨by decide, fun h => by simp [h] at hn⟩
  · have hnamed : ∀ kind : NodeKind, kind.isNamed = true →
        kind.isTrivia = false ∧ (head.named = true → kind.isNamed = true) :=
      fun _ h => ⟨(NodeKind.isNamed_iff.1 h).1, fun _ => h⟩
    split
    · next hk =>
      apply hnamed
      split
      · exact NodeKind.isNamed_of_language (Concrete.Head.language_of_kind? hk)
      · decide
    · exact hnamed _ (by decide)

theorem spares_covered {points : Bool} {slot : Option Slot} {node : Concrete} {below : Below}
    (hs : ∀ place ∈ slot, place ∈ slots → node.head.named = true)
    (h : ∀ points parent, ∀ event ∈ (below points parent pos).events, event.Spares slots) :
    ∀ event ∈ (covered setting points pos slot node below).events, event.Spares slots := by
  rw [covered]
  simp only [leafEvent_eq, kindOf?_eq]
  have hsingle : ∀ {event : Event} {stop : Nat}, event.Spares slots →
      ∀ other ∈ (Emitted.mk [event] stop).events, other.Spares slots := by
    intro event stop hevent
    simpa using hevent
  split
  · exact hsingle (spares_leaf (by simp))
  split
  · exact spares_errorRegion (h false _)
  split
  · obtain ⟨htrivia, hnamed⟩ := leafKind_cases setting.language node.head
    exact hsingle (spares_leaf fun place hp => ⟨htrivia, fun hm => hnamed (hs place hp hm)⟩)
  split
  · exact hsingle (spares_leaf (by simp))
  split
  · exact hsingle (spares_named (by decide))
  · next hk =>
    have hlanguage := Concrete.Head.language_of_kind? hk
    split
    · exact hsingle (spares_named (NodeKind.isNamed_of_language hlanguage))
    · exact spares_node (isNamed_openedKind hlanguage) (spares_thenGap (h points _))

theorem named_of_slotOf? {parent : NodeKind} {fields : List String} {child : Concrete}
    (h : child.LeavesToNamed (slots.map Slot.text)) :
    ∀ place ∈ slotOf? setting.language parent fields child, place ∈ slots →
      child.head.named = true := by
  intro place hs hm
  exact h.here place.text (slotOf?_eq_some_iff.1 hs).1 (List.mem_map_of_mem hm)

mutual

theorem spares_lowerNode (points : Bool) (pos : Nat) (slot : Option Slot) :
    ∀ node : Concrete, node.LeavesToNamed (slots.map Slot.text) →
      (∀ place ∈ slot, place ∈ slots → node.head.named = true) →
        ∀ event ∈ (lowerNode setting points pos slot node).events, event.Spares slots
  | .node head children, h, hs => by
    rw [lowerNode]
    split
    · simp
    · rw [List.forall_mem_append]
      refine ⟨spares_gap, spares_covered hs fun points parent => ?_⟩
      exact spares_lowerNodes points _ parent (namedFields children) children h.below

theorem spares_lowerNodes (points : Bool) (pos : Nat) (parent : NodeKind) (fields : List String) :
    ∀ children : List Concrete,
      Concrete.AllBelow (fun head _ => ∀ field ∈ head.field, field ∈ slots.map Slot.text →
        head.named = true) children →
      ∀ event ∈ (lowerNodes setting points pos parent fields children).events, event.Spares slots
  | [], _ => by simp [lowerNodes]
  | child :: rest, h => by
    obtain ⟨hchild, hrest⟩ := Concrete.allBelow_cons.1 h
    rw [lowerNodes, List.forall_mem_append]
    exact ⟨spares_lowerNode points pos _ child hchild (named_of_slotOf? hchild),
      spares_lowerNodes points _ parent fields rest hrest⟩

end

/-- Lowering puts no trivia into slots, nor terminal symbols into those of fields that are left to
named nodes. -/
theorem spares_events (setting : Setting) (points : Bool) {root : Concrete}
    (h : root.LeavesToNamed (slots.map Slot.text)) :
    ∀ event ∈ events setting points root, event.Spares slots := by
  have hbelow : ∀ points parent, ∀ event ∈ (below setting root points parent 0).events,
      event.Spares slots := fun points parent =>
    spares_lowerNodes points 0 parent (namedFields root.children) root.children h.below
  rw [events]
  refine spares_node (isNamed_rootKind root) (spares_thenGap ?_)
  split
  · exact spares_errorRegion (hbelow false _)
  · exact spares_thenGap (hbelow points _)

end Lowering

namespace Tree

variable {tree : Tree} {language : Language} {events : List Event} {slots : List Slot}

/-- What a slot holds was put into it or is neither trivia nor a terminal symbol. -/
theorem spared_of_ofEvents (h : Tree.ofEvents language events = .ok tree)
    (hs : ∀ event ∈ events, event.Spares slots) {node held : Node tree} {slot : Slot}
    (hin : node.InSlot slot held) :
    held.kind.isTrivia = false ∧ (slot ∈ slots → held.kind.isNamed = true) := by
  obtain ⟨herrors, hstack, -, hvalid, rfl⟩ := Builder.finish_eq_ok_iff.1 h
  have hnew : Builder.Kept (Builder.new language).nodes (Builder.new language).stack [] := .nil
  obtain ⟨log, hkept, hadditions⟩ := Builder.exists_kept_run hnew herrors
  rw [List.nil_append, hstack] at hkept
  obtain ⟨entry, hentry, -, -, hkind⟩ := hkept.exists_entry held
  have hplace := (hkept.inSlot_iff hvalid hentry (hvalid.hasParent_of_inSlot hin)).1 hin
  cases hslot : entry.added.slot with
  | none =>
    rw [hslot, NodeKind.place_none] at hplace
    split at hplace
    · next hnamed => exact ⟨(NodeKind.isNamed_iff.1 hnamed).1, fun _ => hnamed⟩
    · cases hplace
  | some given =>
    rw [hslot, NodeKind.place_some, Option.some.injEq] at hplace
    have haddition : entry.addition ∈ additions events := by
      rw [← hadditions]
      exact List.mem_map_of_mem (List.mem_of_getElem? hentry)
    obtain ⟨event, hevent, hadds⟩ := List.mem_filterMap.1 haddition
    rw [hkind, ← hplace]
    exact hs event hevent entry.addition hadds given hslot

end Tree

namespace Concrete

open Node

def listSlots : List Slot := [.arguments, .parameter, .parameters, .items]

theorem exists_inSlot_of_lists {tree : Tree} {node item : Node tree} {slot : Slot}
    (hs : slot ∈ listSlots) (h : node.Lists slot item) :
    ∃ (holder : Node tree) (place : Slot), place ∈ listSlots ∧ holder.InSlot place item := by
  obtain ⟨held, hheld, hitem⟩ := h
  split at hitem
  · exact ⟨held, .items, by decide, hitem⟩
  · subst hitem
    exact ⟨node, slot, hs, hheld⟩

/-- No slot of a lowered tree holds trivia. If the fields of lists are left to named nodes, then at
every call and every function the queries for arguments and parameters give nodes that are neither
trivia nor terminal symbols, and they fail only where the node has not the capability. -/
theorem lower_slotted (language : Language) (source : String) (points : Bool) (root : Concrete)
    (tree : Tree) (h : root.lower language source points = .ok tree) :
    (∀ (node held : Node tree) (slot : Slot), node.InSlot slot held →
      held.kind.isTrivia = false) ∧
      (root.LeavesToNamed ["arguments", "parameter", "parameters", "items"] →
        ∀ node : Node tree,
          (node.Answers .call node.callArguments fun arguments => ∀ argument ∈ arguments,
            argument.kind.isTrivia = false ∧ argument.kind.isTerminalSymbol = false) ∧
          (node.Answers .function node.functionParameters fun parameters =>
            ∀ parameter ∈ parameters,
              parameter.kind.isTrivia = false ∧ parameter.kind.isTerminalSymbol = false)) := by
  refine ⟨fun node held slot hin => ?_, fun hfields node => ?_⟩
  · have hnone : root.LeavesToNamed (([] : List Slot).map Slot.text) :=
      all_of_forall (fun _ _ field _ hm => by cases hm) root
    exact (Tree.spared_of_ofEvents h (Lowering.spares_events _ points hnone) hin).1
  · have hspares : ∀ event ∈ Lowering.events ⟨language, source⟩ points root,
        event.Spares listSlots := Lowering.spares_events _ points hfields
    have hlisted : ∀ {holder item : Node tree} {slot : Slot}, slot ∈ listSlots →
        holder.Lists slot item →
          item.kind.isTrivia = false ∧ item.kind.isTerminalSymbol = false := by
      intro holder item slot hs hl
      obtain ⟨owner, place, hplace, hin⟩ := exists_inSlot_of_lists hs hl
      exact NodeKind.isNamed_iff.1 ((Tree.spared_of_ofEvents h hspares hin).2 hplace)
    obtain ⟨_, _, -, -, -, rfl, hv⟩ := Tree.exists_outline_of_ofEvents h
    obtain ⟨top, htop, -, hreaches⟩ := Outline.exists_standing_root hv
    obtain ⟨depth, hd⟩ := hv.exists_depth_of_reaches (hreaches node) (.root (Tree.id_of_root htop))
    have harguments := hv.answers_callArguments hd
    have hparameters := hv.answers_functionParameters hd
    refine ⟨⟨harguments.ok_iff, harguments.refused, fun arguments hread argument hm => ?_⟩,
      hparameters.ok_iff, hparameters.refused, fun parameters hread parameter hm => ?_⟩
    · exact hlisted (by decide) ((mem_callArguments_iff hv hread).1 hm)
    · obtain ⟨holder, slot, hslot, hl⟩ := exists_lists_of_functionParameters hv hread hm
      refine hlisted ?_ hl
      rcases hslot with rfl | rfl <;> decide

def commentedCall : Concrete :=
  .node ⟨"program", none, true, false, false, false, ⟨0, 8⟩⟩
    [.node ⟨"expression_statement", none, true, false, false, false, ⟨0, 8⟩⟩
      [.node ⟨"call_expression", none, true, false, false, false, ⟨0, 8⟩⟩
        [.node ⟨"identifier", some "function", true, false, false, false, ⟨0, 1⟩⟩ [],
          .node ⟨"arguments", some "arguments", true, false, false, false, ⟨1, 8⟩⟩
            [.node ⟨"(", none, false, false, false, false, ⟨1, 2⟩⟩ [],
              .node ⟨"comment", none, true, true, false, false, ⟨2, 6⟩⟩ [],
              .node ⟨"identifier", none, true, false, false, false, ⟨6, 7⟩⟩ [],
              .node ⟨")", none, false, false, false, false, ⟨7, 8⟩⟩ []]]]]

theorem slotted_commentedCall :
    commentedCall.LeavesToNamed ["arguments", "parameter", "parameters", "items"] ∧
      ∃ tree, commentedCall.lower .javascript "g(/**/x)" true = .ok tree ∧
        ∃ call argument : Node tree, call.id = 2 ∧ argument.id = 7 ∧
          call.callArguments = .ok [argument] ∧
          argument.kind.isTrivia = false ∧ argument.kind.isTerminalSymbol = false := by
  have hfields : commentedCall.LeavesToNamed ["arguments", "parameter", "parameters", "items"] := by
    decide +kernel
  let tree := (Translation.root ⟨.javascript, "g(/**/x)"⟩ true commentedCall).toTree .javascript
    "g(/**/x)"
  have hl : commentedCall.lower .javascript "g(/**/x)" true = .ok tree :=
    lower_eq_toTree (by decide +kernel) (by decide +kernel)
  let call : Node tree := ⟨2, by decide +kernel⟩
  let argument : Node tree := ⟨7, by decide +kernel⟩
  have hread : call.callArguments = .ok [argument] := by decide +kernel
  obtain ⟨-, hqueries⟩ := lower_slotted .javascript "g(/**/x)" true commentedCall tree hl
  obtain ⟨harguments, -⟩ := hqueries hfields call
  exact ⟨hfields, tree, hl, call, argument, rfl, rfl, hread,
    harguments.answer _ hread argument List.mem_cons_self⟩

end Concrete

end CodeTree

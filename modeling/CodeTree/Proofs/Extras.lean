import CodeTree.Proofs.Origins
import CodeTree.Proofs.SlottedKinds

/-!
# Where extras go

Extra nodes fill no field, so no event puts them into a slot, and only a rest slot can take them.
It skips comments, fixed tokens and whatever spells a symbol. Other extras are lowered as any other
node is: the continuation of a line is an extra that no grammar production names, so it becomes a
terminal and ends up in rest slots, those of argument lists included (`Concrete.lower_extras`).
-/

namespace CodeTree

namespace Lowering

/-- Whether a node, if it is no error region, becomes trivia or a terminal symbol: comments, fixed
tokens and whatever spells a symbol. -/
def isSkipped (language : Language) (node : Concrete) : Bool :=
  node.head.IsComment ∨ (node.children = [] ∧ node.head.named = false) ∨ node.SpellsSymbol language

end Lowering

namespace Translation

open Lowering (Setting isSkipped leafKind_cases)
open Concrete.Head (language_of_kind?)

theorem isNamed_structuredKind {language : Language} {kind : NodeKind}
    (h : kind.language? = some language) (children : List Concrete) :
    (structuredKind language kind children).isNamed = true := by
  rw [structuredKind]
  split
  · exact NodeKind.isNamed_of_language h
  · decide

theorem isNamed_leafKind (language : Language) (head : Concrete.Head) :
    (leafKind language head).isNamed = head.named := by
  cases hn : head.named with
  | true => exact (leafKind_cases language head).2 hn
  | false =>
    rw [leafKind, hn, Bool.not_false, if_pos rfl]
    rfl

/-- What a node becomes is taken by rest slots unless the node is skipped. -/
theorem isNamed_node {setting : Setting} (points : Bool) (slot : Option Slot) {origin : Concrete}
    (he : origin.head.error = false) :
    (node setting points slot origin).label.kind.isNamed =
      !isSkipped setting.language origin := by
  have hsingle : ∀ {place : Option Slot} {kind : NodeKind},
      verdict setting.language slot origin = .single place kind →
        (node setting points slot origin).label.kind = kind := by
    intro place kind hv
    cases origin
    rw [node, hv]
    rfl
  -- The cases follow the conditions of `verdict`.
  by_cases hc : origin.head.IsComment
  · have hverdict : verdict setting.language slot origin = .single none (.special .comment) := by
      simp [verdict, hc]
    have hskipped : isSkipped setting.language origin = true := by simp [isSkipped, hc]
    rw [hsingle hverdict, hskipped]
    rfl
  by_cases hl : origin.children = []
  · have hverdict : verdict setting.language slot origin =
        .single slot (leafKind setting.language origin.head) := by simp [verdict, hc, he, hl]
    have hsymbol : ¬origin.SpellsSymbol setting.language := fun h => h.2.2.1 hl
    rw [hsingle hverdict, isNamed_leafKind]
    simp [isSkipped, hc, hl, hsymbol]
  by_cases hs : origin.SpellsSymbol setting.language
  · have hverdict : verdict setting.language slot origin =
        .single none (.special .terminalSymbol) := by simp [verdict, hc, he, hl, hs]
    have hskipped : isSkipped setting.language origin = true := by simp [isSkipped, hs]
    rw [hsingle hverdict, hskipped]
    rfl
  have hskipped : isSkipped setting.language origin = false := by simp [isSkipped, hc, hl, hs]
  rw [hskipped]
  cases hk : origin.head.kind? setting.language with
  | none =>
    have hverdict : verdict setting.language slot origin = .single slot (.special .blot) := by
      simp [verdict, hc, he, hl, hs, hk]
    rw [hsingle hverdict]
    rfl
  | some kind =>
    have hlanguage := language_of_kind? hk
    cases ht : kind.isTerminal with
    | true =>
      have hverdict : verdict setting.language slot origin = .single slot kind := by
        simp [verdict, hc, he, hl, hs, hk, ht]
      rw [hsingle hverdict]
      exact NodeKind.isNamed_of_language hlanguage
    | false =>
      have hverdict : verdict setting.language slot origin =
          .structured (structuredKind setting.language kind origin.children) := by
        simp [verdict, hc, he, hl, hs, hk, ht]
      cases origin
      rw [node, hverdict]
      exact isNamed_structuredKind hlanguage _

theorem placeIn_extra {setting : Setting} {points : Bool} {parent : NodeKind}
    {siblings : List Concrete} {extra : Concrete} (hf : extra.head.field = none)
    (he : extra.head.error = false) (kind : NodeKind) :
    (node setting points (extra.slotIn? setting.language parent siblings) extra).label.placeIn
        kind =
      if isSkipped setting.language extra then none else kind.restSlot?.map (·.slot) := by
  rw [Outline.Label.placeIn, slot_node fun _ => hf, Concrete.slotIn?_of_fieldless hf,
    NodeKind.place_none, isNamed_node points none he]
  cases isSkipped setting.language extra <;> rfl

end Translation

namespace Concrete

open Node Outline

theorem inSlot_iff_of_extra (setting : Lowering.Setting) {points : Bool} {root extra : Concrete}
    {tree : Tree} {node : Node tree} (hv : tree.Valid) (hw : root.WellFormed setting.source)
    (ht : ∀ top : Node tree, tree.root = .ok top →
      (Translation.root setting points root).StandsAt top)
    (hn : Becomes root extra node) (hx : extra.head.extra = true)
    (he : extra.head.error = false) (holder : Node tree) (slot : Slot) :
    holder.InSlot slot node ↔ node.HasParent holder ∧
      holder.kind.restSlot?.map (·.slot) = some slot ∧
        Lowering.isSkipped setting.language extra = false := by
  cases hn with
  | whole htop _ =>
    have hroot : ∀ {owner : Node tree}, ¬node.HasParent owner := fun hp =>
      hv.id_ne_root_of_hasParent hp (Tree.id_of_root htop)
    exact ⟨fun hin => absurd (hv.hasParent_of_inSlot hin) hroot, fun h => absurd h.1 hroot⟩
  | region _ herror => cases he.symm.trans herror
  | @child parent _ owner above _ hp hu hm hempty hc hs =>
    obtain ⟨hparent, hspread⟩ := hp.spread hv hw ht
    have hchildren := hparent.below.of_mem
    have hfieldless : extra.head.field = none := (hchildren extra hm).here.fieldless hx
    obtain ⟨_, label, parts, _, hstands, rfl, hpart, -⟩ :=
      (hspread above node hu hc).exists_part (fun other ho => (hchildren other ho).here) hm
        hempty hc hs
    have habove : node.HasParent above := hv.owns_iff.1 hc.owns
    constructor
    · intro hin
      obtain rfl := habove.unique (hv.hasParent_of_inSlot hin)
      obtain ⟨-, hrest⟩ := (hstands.inSlot_part_iff hv hpart).1 hin
      rw [Translation.placeIn_extra hfieldless he] at hrest
      split at hrest
      · cases hrest
      · next hskipped => exact ⟨habove, hrest, by simpa using hskipped⟩
    · rintro ⟨hother, hrest, hskipped⟩
      obtain rfl := habove.unique hother
      obtain ⟨decl, hdecl, rfl⟩ := Option.map_eq_some_iff.1 hrest
      refine (hstands.inSlot_part_iff hv hpart).2 ⟨?_, ?_⟩
      · exact NodeKind.declares_iff_mem.2 (List.mem_map_of_mem (NodeKind.mem_of_restSlot? hdecl).1)
      · rw [Translation.placeIn_extra hfieldless he, hskipped]
        exact hrest

/-- What an extra became, other than an error region, stands in the rest slot of its parent and in
no other slot, and in none at all if the extra is skipped. So it is an argument or a parameter only
if it is not skipped, and among the other items of a list of arguments it is one just then. -/
theorem lower_extras (language : Language) (source : String) (points : Bool) (root : Concrete)
    (h : root.WellFormed source) (tree : Tree) (hl : root.lower language source points = .ok tree)
    (extra : Concrete) (node : Node tree) (hn : Becomes root extra node)
    (hx : extra.head.extra = true) (he : extra.head.error = false) :
    (∀ (holder : Node tree) (slot : Slot), holder.InSlot slot node ↔ node.HasParent holder ∧
      holder.kind.restSlot?.map (·.slot) = some slot ∧
        Lowering.isSkipped language extra = false) ∧
      (∀ (call : Node tree) (arguments : List (Node tree)), call.callArguments = .ok arguments →
        (node ∈ arguments → Lowering.isSkipped language extra = false) ∧
          ∀ list : Node tree, call.InSlot .arguments list → node.HasParent list →
            list.kind.restSlot?.map (·.slot) = some .items →
              (node ∈ arguments ↔ Lowering.isSkipped language extra = false)) ∧
      ∀ (function : Node tree) (parameters : List (Node tree)),
        function.functionParameters = .ok parameters → node ∈ parameters →
          Lowering.isSkipped language extra = false := by
  rw [lower_eq_validated h] at hl
  obtain ⟨hv, rfl⟩ := Tree.validated_eq_ok_iff.1 hl
  obtain ⟨top, htop, hstands, -⟩ := exists_standing_root hv
  have hslots := inSlot_iff_of_extra ⟨language, source⟩ hv h (fun other ho => by
    cases htop.symm.trans ho
    exact hstands) hn hx he
  have hlisted : ∀ {owner : Node _} {slot : Slot}, owner.Lists slot node →
      Lowering.isSkipped language extra = false := by
    rintro owner slot ⟨held, hheld, hitem⟩
    split at hitem
    · exact ((hslots held .items).1 hitem).2.2
    · subst hitem
      exact ((hslots owner slot).1 hheld).2.2
  refine ⟨hslots, fun call arguments hread => ?_, fun function parameters hread hm => ?_⟩
  · have hargument := fun hm => hlisted ((mem_callArguments_iff hv hread).1 hm)
    refine ⟨hargument, fun list hlist hparent hrest => ⟨hargument, fun hskipped => ?_⟩⟩
    have hitem := (hslots list .items).2 ⟨hparent, hrest, hskipped⟩
    refine (mem_callArguments_iff hv hread).2 ⟨list, hlist, ?_⟩
    rwa [if_pos hitem.declares]
  · obtain ⟨_, _, -, hl⟩ := exists_lists_of_functionParameters hv hread hm
    exact hlisted hl

def lineContinuation : Concrete :=
  .node ⟨"line_continuation", none, true, true, false, false, ⟨5, 7⟩⟩ []

def continuedList : Concrete :=
  .node ⟨"argument_list", some "arguments", true, false, false, false, ⟨1, 9⟩⟩
    [.node ⟨"(", none, false, false, false, false, ⟨1, 2⟩⟩ [],
      .node ⟨"identifier", none, true, false, false, false, ⟨2, 3⟩⟩ [],
      .node ⟨",", none, false, false, false, false, ⟨3, 4⟩⟩ [],
      lineContinuation,
      .node ⟨"identifier", none, true, false, false, false, ⟨7, 8⟩⟩ [],
      .node ⟨")", none, false, false, false, false, ⟨8, 9⟩⟩ []]

def continuedExpression : Concrete :=
  .node ⟨"call", none, true, false, false, false, ⟨0, 9⟩⟩
    [.node ⟨"identifier", some "function", true, false, false, false, ⟨0, 1⟩⟩ [], continuedList]

def continuedStatement : Concrete :=
  .node ⟨"expression_statement", none, true, false, false, false, ⟨0, 9⟩⟩ [continuedExpression]

/-- The call `g(x, y)` with a line continuation in front of `y`. -/
def continuedCall : Concrete :=
  .node ⟨"module", none, true, false, false, false, ⟨0, 9⟩⟩ [continuedStatement]

def continuedTree : Tree :=
  .ofParts .python "g(x, \\\ny)" #[⟨.named .python "module", ⟨0, 9⟩, none, [1], [[1]]⟩,
    ⟨.named .python "expression_statement", ⟨0, 9⟩, some 0, [2], [[2]]⟩,
    ⟨.named .python "call", ⟨0, 9⟩, some 1, [3, 4], [[3], [4]]⟩,
    ⟨.named .python "identifier", ⟨0, 1⟩, some 2, [], []⟩,
    ⟨.named .python "argument_list", ⟨1, 9⟩, some 2, [5, 6, 7, 8, 9, 10, 11], [[6, 9, 10]]⟩,
    ⟨.special .terminalSymbol, ⟨1, 2⟩, some 4, [], []⟩,
    ⟨.named .python "identifier", ⟨2, 3⟩, some 4, [], []⟩,
    ⟨.special .terminalSymbol, ⟨3, 4⟩, some 4, [], []⟩,
    ⟨.special .innerWhitespace, ⟨4, 5⟩, some 4, [], []⟩,
    ⟨.special .terminal, ⟨5, 7⟩, some 4, [], []⟩,
    ⟨.named .python "identifier", ⟨7, 8⟩, some 4, [], []⟩,
    ⟨.special .terminalSymbol, ⟨8, 9⟩, some 4, [], []⟩]

theorem lower_continuedCall :
    continuedCall.lower .python "g(x, \\\ny)" false = .ok continuedTree := by decide +kernel

theorem becomes_lineContinuation {node : Node continuedTree} (hid : node.id = 9) :
    Becomes continuedCall lineContinuation node := by
  have htop : Becomes continuedCall continuedCall (⟨0, by decide⟩ : Node continuedTree) :=
    .whole rfl rfl
  have hstatement :
      Becomes continuedCall continuedStatement (⟨1, by decide⟩ : Node continuedTree) :=
    htop.childOf rfl (.head _) rfl (by decide) rfl
  have hcall : Becomes continuedCall continuedExpression (⟨2, by decide⟩ : Node continuedTree) :=
    hstatement.childOf rfl (.head _) rfl (by decide) rfl
  have hlist : Becomes continuedCall continuedList (⟨4, by decide⟩ : Node continuedTree) :=
    hcall.childOf rfl (.tail _ (.head _)) rfl (by decide) rfl
  have hnode : node = ⟨9, by decide⟩ := Tree.node_ext hid
  rw [hnode]
  exact hlist.childOf rfl (.tail _ (.tail _ (.tail _ (.head _)))) rfl (by decide) rfl

/-- The line continuation stands in the rest slot of the list and in no other slot. -/
theorem extras_continuedCall :
    continuedCall.WellFormed "g(x, \\\ny)" ∧
      continuedCall.lower .python "g(x, \\\ny)" false = .ok continuedTree ∧
        ∃ list node : Node continuedTree, list.id = 4 ∧ node.id = 9 ∧
          Becomes continuedCall lineContinuation node ∧ lineContinuation.head.extra = true ∧
            lineContinuation.head.error = false ∧
              ∀ slot, list.InSlot slot node ↔ slot = .items := by
  have hw : continuedCall.WellFormed "g(x, \\\ny)" := by decide +kernel
  let list : Node continuedTree := ⟨4, by decide⟩
  let node : Node continuedTree := ⟨9, by decide⟩
  have hnode : Becomes continuedCall lineContinuation node := becomes_lineContinuation rfl
  obtain ⟨hslots, -, -⟩ := lower_extras .python "g(x, \\\ny)" false continuedCall hw continuedTree
    lower_continuedCall lineContinuation node hnode rfl rfl
  refine ⟨hw, lower_continuedCall, list, node, rfl, rfl, hnode, rfl, rfl, fun slot => ?_⟩
  have hparent : node.HasParent list := hasParent_iff.2 (by decide +kernel)
  have hskipped : Lowering.isSkipped .python lineContinuation = false := by decide +kernel
  have hrest : list.kind.restSlot?.map (·.slot) = some .items := by decide +kernel
  rw [hslots, hrest, Option.some.injEq, eq_comm]
  exact ⟨fun h => h.2.1, fun h => ⟨hparent, h, hskipped⟩⟩

/-- A line continuation between two arguments is an argument. -/
theorem argument_continuedCall :
    continuedCall.WellFormed "g(x, \\\ny)" ∧
      continuedCall.lower .python "g(x, \\\ny)" false = .ok continuedTree ∧
        ∃ call list first node second : Node continuedTree, call.id = 2 ∧ list.id = 4 ∧
          first.id = 6 ∧ node.id = 9 ∧ second.id = 10 ∧
            Becomes continuedCall lineContinuation node ∧ lineContinuation.head.extra = true ∧
              lineContinuation.head.error = false ∧ list.InSlot .items node ∧
                call.callArguments = .ok [first, node, second] := by
  let call : Node continuedTree := ⟨2, by decide⟩
  let list : Node continuedTree := ⟨4, by decide⟩
  let first : Node continuedTree := ⟨6, by decide⟩
  let node : Node continuedTree := ⟨9, by decide⟩
  let second : Node continuedTree := ⟨10, by decide⟩
  have hitems : list.many .items = .ok [first, node, second] := by decide +kernel
  have hin : list.InSlot .items node :=
    (mem_many_iff hitems).1 (List.mem_cons_of_mem _ List.mem_cons_self)
  exact ⟨by decide +kernel, lower_continuedCall, call, list, first, node, second, rfl, rfl, rfl,
    rfl, rfl, becomes_lineContinuation rfl, rfl, rfl, hin, by decide +kernel⟩

end Concrete

end CodeTree

import CodeTree.Concrete.Lowering
import CodeTree.Proofs.ConcreteNodes
import CodeTree.Proofs.OutlineEvents

/-!
# The translation of concrete trees

What a well-formed concrete tree stands for, without offsets that move, open nodes or events: each
node that covers text becomes one node of an outline, with the range it has in the concrete tree
(`span_node`), and text between the nodes becomes fillers. Which kind and slot a node gets is
decided by its marks, its name in the grammar, its field, its children and its parent alone
(`verdict`); of lowering, only the setting is used.

Error regions are error leaves or, when they are to be variation points, hold such a leaf and a
parse error over the same range, in which all error regions are leaves.
-/

namespace CodeTree

namespace Translation

open Lowering (Setting)
open Concrete.Head (language_of_kind?)

variable (setting : Setting)

def leaf (slot : Option Slot) (kind : NodeKind) (span : Span) : Outline :=
  .node ⟨kind, slot, span, false⟩ []

/-- What stands for the text of a range that no node covers. -/
def fillerKind (span : Span) : NodeKind :=
  if (textAt setting.source span).toList.all Blank.contains then .special .innerWhitespace
  else .special .blot

def filler (start stop : Nat) : List Outline :=
  if stop ≤ start then [] else [leaf none (fillerKind setting ⟨start, stop⟩) ⟨start, stop⟩]

/-- Whether the children fill the slots of a kind as often as they may be filled. -/
def accepts (language : Language) (kind : NodeKind) (children : List Concrete) : Bool :=
  kind.slots.all fun decl =>
    decl.rest || decl.arity.accepts (children.countP fun child =>
      child.head.Covers ∧ child.slotIn? language kind children = some decl.slot)

def leafKind (language : Language) (head : Concrete.Head) : NodeKind :=
  if !head.named then .special .terminalSymbol
  else
    match head.kind? language with
    | some kind => if kind.isTerminal then kind else .special .terminal
    | none => .special .terminal

def structuredKind (language : Language) (kind : NodeKind) (children : List Concrete) : NodeKind :=
  if accepts language kind children then kind else .special .parseError

inductive Verdict where
  | single (slot : Option Slot) (kind : NodeKind)
  | error
  | structured (kind : NodeKind)
  deriving DecidableEq

/-- What becomes of a node that its parent puts into a slot. -/
def verdict (language : Language) (slot : Option Slot) (node : Concrete) : Verdict :=
  if node.head.IsComment then .single none (.special .comment)
  else if node.head.error then .error
  else if node.children.isEmpty then .single slot (leafKind language node.head)
  else if node.SpellsSymbol language then .single none (.special .terminalSymbol)
  else
    match node.head.kind? language with
    | none => .single slot (.special .blot)
    | some kind =>
      if kind.isTerminal then .single slot kind
      else .structured (structuredKind language kind node.children)

/-- An error region whose text may be structured as given. -/
def errorRegion (points : Bool) (slot : Option Slot) (span : Span) (attempt : List Outline) :
    Outline :=
  if points then
    .node ⟨.special .variationPoint, slot, span, false⟩
      [leaf (some .raw) (.special .errorTree) span,
        .node ⟨.special .parseError, some .alternatives, span, true⟩ attempt]
  else leaf slot (.special .errorTree) span

mutual

def node (points : Bool) (slot : Option Slot) : Concrete → Outline
  | .node head children =>
    match verdict setting.language slot (.node head children) with
    | .single slot kind => leaf slot kind head.span
    | .error =>
      errorRegion points slot head.span
        (parts false (.special .parseError) children head.span.start head.span.stop children)
    | .structured kind =>
      .node ⟨kind, slot, head.span, false⟩
        (parts points kind children head.span.start head.span.stop children)

/-- The children of a node of kind `parent` that fill the range from `start` to `stop`. -/
def parts (points : Bool) (parent : NodeKind) (siblings : List Concrete) (start stop : Nat) :
    List Concrete → List Outline
  | [] => filler setting start stop
  | child :: rest =>
    if child.head.Covers then
      filler setting start child.head.span.start ++
        node points (child.slotIn? setting.language parent siblings) child ::
          parts points parent siblings child.head.span.stop stop rest
    else parts points parent siblings start stop rest

end

def rootKind (language : Language) (root : Concrete) : NodeKind :=
  match root.head.kind? language with
  | some kind =>
    if kind.isTerminal then .special .parseError else structuredKind language kind root.children
  | none => .special .parseError

def below (points : Bool) (parent : NodeKind) (start : Nat) (node : Concrete) : List Outline :=
  parts setting points parent node.children start node.head.span.stop node.children

/-- The outline of a whole source. The root starts where the source starts, whatever its range. -/
def root (points : Bool) (tree : Concrete) : Outline :=
  let kind := rootKind setting.language tree
  let stop := tree.head.span.stop
  let body :=
    if tree.head.error then
      [errorRegion points none ⟨0, stop⟩ (below setting false (.special .parseError) 0 tree)]
    else below setting points kind 0 tree
  .node ⟨kind, none, ⟨0, setting.source.utf8ByteSize⟩, false⟩
    (body ++ filler setting stop setting.source.utf8ByteSize)

theorem isTerminal_fillerKind (span : Span) : (fillerKind setting span).isTerminal = true := by
  rw [fillerKind]
  split <;> rfl

theorem isTerminal_leafKind (language : Language) (head : Concrete.Head) :
    (leafKind language head).isTerminal = true := by
  rw [leafKind]
  split
  · rfl
  · cases head.kind? language with
    | none => rfl
    | some kind =>
      simp only
      split
      · assumption
      · rfl

/-- What a node in a slot may become, and when. -/
inductive Yields (language : Language) (slot : Option Slot) (node : Concrete) : Verdict → Prop where
  | comment (h : node.head.IsComment) : Yields language slot node (.single none (.special .comment))
  | error (h : node.head.error = true) : Yields language slot node .error
  | leaf : Yields language slot node (.single slot (leafKind language node.head))
  | symbol (h : node.SpellsSymbol language) :
    Yields language slot node (.single none (.special .terminalSymbol))
  | blot : Yields language slot node (.single slot (.special .blot))
  | token {kind : NodeKind} (hk : node.head.kind? language = some kind)
    (ht : kind.isTerminal = true) : Yields language slot node (.single slot kind)
  | production {kind : NodeKind} (hk : node.head.kind? language = some kind)
    (ht : kind.isTerminal = false) :
    Yields language slot node (.structured (structuredKind language kind node.children))

theorem yields_verdict (language : Language) (slot : Option Slot) (node : Concrete) :
    Yields language slot node (verdict language slot node) := by
  rw [verdict]
  split
  · next hc => exact .comment hc
  split
  · next he => exact .error he
  split
  · exact .leaf
  split
  · next hs => exact .symbol hs
  split
  · exact .blot
  · next hk =>
    split
    · next ht => exact .token hk ht
    · next ht => exact .production hk (by simpa using ht)

variable {language : Language} {slot slot' : Option Slot} {tree : Concrete} {kind : NodeKind}

theorem belongsTo_leafKind (language : Language) (head : Concrete.Head) :
    (leafKind language head).BelongsTo language := by
  rw [leafKind]
  split
  · exact NodeKind.belongsTo_special _ _
  · cases hk : head.kind? language with
    | none => exact NodeKind.belongsTo_special _ _
    | some kind =>
      simp only
      split
      · exact NodeKind.belongsTo_of_language (language_of_kind? hk)
      · exact NodeKind.belongsTo_special _ _

/-- A node that becomes a leaf gets a terminal kind of the language, and keeps its slot unless it is
a comment or spells a symbol. -/
theorem verdict_single (h : verdict language slot tree = .single slot' kind) :
    kind.isTerminal = true ∧ kind.BelongsTo language ∧
      (slot' = slot ∨
        slot' = none ∧ (tree.head.IsComment ∨ tree.SpellsSymbol language)) := by
  have hyields := yields_verdict language slot tree
  rw [h] at hyields
  cases hyields with
  | comment hc => exact ⟨rfl, NodeKind.belongsTo_special _ _, .inr ⟨rfl, .inl hc⟩⟩
  | leaf =>
    exact ⟨isTerminal_leafKind language tree.head, belongsTo_leafKind language tree.head, .inl rfl⟩
  | symbol hs => exact ⟨rfl, NodeKind.belongsTo_special _ _, .inr ⟨rfl, .inr hs⟩⟩
  | blot => exact ⟨rfl, NodeKind.belongsTo_special _ _, .inl rfl⟩
  | token hk ht => exact ⟨ht, NodeKind.belongsTo_of_language (language_of_kind? hk), .inl rfl⟩

theorem verdict_structured (h : verdict language slot tree = .structured kind) :
    ∃ known, tree.head.kind? language = some known ∧ known.isTerminal = false ∧
      kind = structuredKind language known tree.children := by
  have hyields := yields_verdict language slot tree
  rw [h] at hyields
  cases hyields with
  | production hk ht => exact ⟨_, hk, ht, rfl⟩

theorem error_of_verdict (h : verdict language slot tree = .error) : tree.head.error = true := by
  have hyields := yields_verdict language slot tree
  rw [h] at hyields
  cases hyields with
  | error he => exact he

/-- What is said of the kinds that nodes with children get. -/
structure Opens (language : Language) (kind : NodeKind) (children : List Concrete) : Prop where
  ofLanguage : ∀ other, kind.language? = some other → other = language
  structured : kind.isTerminal = false
  plain : kind ≠ .special .variationPoint
  fitting : accepts language kind children = true

theorem accepts_parseError (language : Language) (children : List Concrete) :
    accepts language (.special .parseError) children = true := by
  simp [accepts, NodeKind.slots, NodeKind.production, SpecialKind.production, Production.node,
    SlotDecl.remaining]

theorem opens_parseError (language : Language) (children : List Concrete) :
    Opens language (.special .parseError) children :=
  ⟨NodeKind.belongsTo_special _ _, rfl, by simp, accepts_parseError language children⟩

theorem opens_structuredKind {head : Concrete.Head} (hk : head.kind? language = some kind)
    (ht : kind.isTerminal = false) (children : List Concrete) :
    Opens language (structuredKind language kind children) children := by
  rw [structuredKind]
  by_cases ha : accepts language kind children = true
  · have hlanguage := language_of_kind? hk
    rw [if_pos ha]
    refine ⟨NodeKind.belongsTo_of_language hlanguage, ht, ?_, ha⟩
    rintro rfl
    cases hlanguage
  · rw [if_neg ha]
    exact opens_parseError language children

theorem opens_of_verdict (h : verdict language slot tree = .structured kind) :
    Opens language kind tree.children := by
  obtain ⟨known, hk, ht, rfl⟩ := verdict_structured h
  exact opens_structuredKind hk ht tree.children

theorem opens_rootKind (language : Language) (tree : Concrete) :
    Opens language (rootKind language tree) tree.children := by
  rw [rootKind]
  cases hk : tree.head.kind? language with
  | none => exact opens_parseError language tree.children
  | some kind =>
    cases ht : kind.isTerminal with
    | true => simpa [ht] using opens_parseError language tree.children
    | false => simpa [ht] using opens_structuredKind hk ht tree.children

/-- Each node has the range that it has in the concrete tree. -/
theorem span_node (points : Bool) (slot : Option Slot) (tree : Concrete) :
    (node setting points slot tree).label.span = tree.head.span := by
  cases tree with
  | node head children =>
    rw [node]
    cases verdict setting.language slot (.node head children) with
    | single slot kind => rfl
    | error => cases points <;> rfl
    | structured kind => rfl

theorem detached_node (points : Bool) (slot : Option Slot) (tree : Concrete) :
    (node setting points slot tree).label.detached = false := by
  cases tree with
  | node head children =>
    rw [node]
    cases verdict setting.language slot (.node head children) with
    | single slot kind => rfl
    | error => cases points <;> rfl
    | structured kind => rfl

end Translation

end CodeTree

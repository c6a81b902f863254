import CodeTree.Kind
import CodeTree.Text.Quoted
import CodeTree.Tree.Span

/-!
# What can be wrong with a tree

Text that cannot be parsed is not an error: it stays in the tree as error nodes. Errors are broken
contracts. A `Defect` says what is wrong at a node or a kind, an `Imbalance` what is wrong with the
order of building events, and a `TreeError` names the place as well. Each has one wording.
-/

namespace CodeTree

/-- What is wrong at a node or with the declaration of a kind. -/
inductive Defect where
  /-- A capability requires a slot that the kind does not declare. -/
  | slotRequiredBy (capability : Capability)
  | terminalDeclaresSlots
  | terminalFlagDisagrees
  | slotDeclaredTwice
  | singularRestSlot
  | severalRestSlots
  | productionDeclaredTwice
  | productionDoesNotResolve
  | terminalOpened
  | leafWithStructure
  | alternativeElsewhere
  /-- A kind of one language is used in a builder for another. -/
  | foreignToBuilder (kind builder : Language)
  | receivedCount (count : Nat) (arity : Arity)
  | tooManyNodes
  | noRoot
  | rootHasParent
  | rootSpan (span : Span) (bytes : Nat)
  | references (id : NodeId) (count : Nat)
  /-- A kind of one language is stored in a tree of another. -/
  | foreignToTree (kind tree : Language)
  | notInSource (span : Span)
  | terminalWithChildren
  | missingChild (child : NodeId)
  | strayChild (child : NodeId)
  | childStart (child : NodeId) (start expected : Nat)
  | childrenEnd (cursor stop : Nat)
  | slotCount (stored declared : Nat)
  | heldCount (count : Nat) (arity : Arity)
  | missingSlotted (id : NodeId)
  | slottedElsewhere (id : NodeId)
  | alternativeOutside
  | slottedNotChild (id : NodeId)
  | requiredSlotEmpty
  | notExactlyOne (count : Nat)
  | notAtMostOne (count : Nat)
  | slotStorageMissing
  | noSlotAt (position : Nat)
  deriving DecidableEq

namespace Defect

def message : Defect → String
  | .slotRequiredBy capability =>
    "required by capability `" ++ capability.text ++ "` but not declared"
  | .terminalDeclaresSlots => "terminal kind declares slots"
  | .terminalFlagDisagrees => "terminal flag and terminal capability disagree"
  | .slotDeclaredTwice => "declared twice"
  | .singularRestSlot => "rest slot must be plural"
  | .severalRestSlots => "more than one rest slot"
  | .productionDeclaredTwice => "production declared twice"
  | .productionDoesNotResolve => "production does not resolve"
  | .terminalOpened => "terminal kinds are added as leaves, not opened"
  | .leafWithStructure => "structured kinds are opened with start_node"
  | .alternativeElsewhere => "alternatives can only be added to variation points"
  | .foreignToBuilder kind builder =>
    "kind belongs to " ++ kind.name ++ ", builder is for " ++ builder.name
  | .receivedCount count arity =>
    "received " ++ toString count ++ " children, arity is " ++ arity.name
  | .tooManyNodes => "too many nodes"
  | .noRoot => "tree has no root"
  | .rootHasParent => "root has a parent"
  | .rootSpan span bytes =>
    "root spans " ++ span.text ++ " but the source has " ++ toString bytes ++ " bytes"
  | .references id count =>
    "node " ++ id.text ++ " is referenced " ++ toString count ++ " times by its parent"
  | .foreignToTree kind tree => "kind belongs to " ++ kind.name ++ ", tree is " ++ tree.name
  | .notInSource span => "span " ++ span.text ++ " is not a valid source range"
  | .terminalWithChildren => "terminal node has children"
  | .missingChild child => "child " ++ child.text ++ " does not exist"
  | .strayChild child => "child " ++ child.text ++ " does not point back to its parent"
  | .childStart child start expected =>
    "child " ++ child.text ++ " starts at byte " ++ toString start ++ ", expected " ++
      toString expected
  | .childrenEnd cursor stop =>
    "children end at byte " ++ toString cursor ++ ", node ends at " ++ toString stop
  | .slotCount stored declared =>
    toString stored ++ " slots stored, " ++ toString declared ++ " declared"
  | .heldCount count arity => "holds " ++ toString count ++ " children, arity is " ++ arity.name
  | .missingSlotted id => "slotted node " ++ id.text ++ " does not exist"
  | .slottedElsewhere id => "slotted node " ++ id.text ++ " belongs to another parent"
  | .alternativeOutside => "alternative reaches outside the raw region"
  | .slottedNotChild id => "slotted node " ++ id.text ++ " is not a child"
  | .requiredSlotEmpty => "required slot is empty"
  | .notExactlyOne count => "expected exactly one child, found " ++ toString count
  | .notAtMostOne count => "expected at most one child, found " ++ toString count
  | .slotStorageMissing => "slot storage is missing"
  | .noSlotAt position => "no slot declared at position " ++ toString position

end Defect

/-- What is wrong with the order of building events. -/
inductive Imbalance where
  | alternativeOutside
  | secondRoot
  | unmatchedFinish
  | leafOutside
  | stillOpen (count : Nat)
  | noRoot
  deriving DecidableEq

namespace Imbalance

def message : Imbalance → String
  | .alternativeOutside => "alternative started outside of a variation point"
  | .secondRoot => "a second root node was started"
  | .unmatchedFinish => "finish_node without a matching start_node"
  | .leafOutside => "leaf added outside of any node"
  | .stillOpen count => toString count ++ " nodes are still open"
  | .noRoot => "no root node was started"

end Imbalance

/-- A broken contract between a tree and whoever builds or reads it. -/
inductive TreeError where
  /-- A slot was asked for that the kind does not declare. -/
  | undeclaredSlot (kind : NodeKind) (slot : String)
  /-- A slot was read in a way that its arity does not allow. -/
  | arityMismatch (kind : NodeKind) (slot : Slot) (declared requested : Arity)
  | malformed (kind : NodeKind) (slot : Option Slot) (defect : Defect)
  | unbalanced (imbalance : Imbalance)
  /-- The text of an alternative is not the text it stands for. -/
  | alternativeMismatch (offset : Nat) (found : String)
  /-- A node was asked for that the tree does not have. -/
  | noSuchNode (id : NodeId)
  /-- Following links from the node never ends. -/
  | endless (id : NodeId)
  deriving DecidableEq

namespace TreeError

def message : TreeError → String
  | .undeclaredSlot kind slot =>
    "slot `" ++ slot ++ "` is not declared for node kind `" ++ kind.text ++ "`"
  | .arityMismatch kind slot declared requested =>
    "slot `" ++ slot.text ++ "` of `" ++ kind.text ++ "` has arity " ++ declared.name ++
      ", requested " ++ requested.name
  | .malformed kind none defect =>
    "malformed tree at `" ++ kind.text ++ "`: " ++ defect.message
  | .malformed kind (some slot) defect =>
    "malformed tree at `" ++ kind.text ++ "` slot `" ++ slot.text ++ "`: " ++ defect.message
  | .unbalanced imbalance => "unbalanced tree builder: " ++ imbalance.message
  | .alternativeMismatch offset found =>
    "alternative text " ++ Quoted.render found ++ " does not match the raw region at byte " ++
      toString offset
  | .noSuchNode id => "node " ++ id.text ++ " is out of bounds"
  | .endless id => "the nodes below " ++ id.text ++ " form a cycle"

end TreeError

def ensure (condition : Bool) (error : TreeError) : Except TreeError Unit :=
  if condition then .ok () else .error error

@[simp] theorem ensure_eq_ok_iff {condition : Bool} {error : TreeError} :
    ensure condition error = .ok () ↔ condition = true := by
  cases condition <;> simp [ensure]

namespace NodeKind

def requireSlot (kind : NodeKind) (slot : Slot) : Except TreeError SlotDecl :=
  match kind.slot? slot with
  | some decl => .ok decl
  | none => .error (.undeclaredSlot kind slot.text)

/-- The declaration of the slot with a given text. A text that names no slot at all is an undeclared
slot like any other. -/
def slotByText (kind : NodeKind) (text : String) : Except TreeError SlotDecl :=
  match (Slot.ofText? text).bind kind.slot? with
  | some decl => .ok decl
  | none => .error (.undeclaredSlot kind text)

end NodeKind

end CodeTree

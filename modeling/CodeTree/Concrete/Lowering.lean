import CodeTree.Tree.Builder
import CodeTree.Concrete
import CodeTree.Text.Blank

/-!
# Lowering concrete trees

Lowering turns a concrete tree into building events. It goes through the tree from left to right and
keeps the offset up to which the source has been emitted, so every byte ends up in one leaf:

* text that no node covers becomes whitespace, or a blot when it is not blank;
* unnamed leaves become terminal symbols, named leaves tokens of their kind, or of the general
  terminal kind when no grammar production names them;
* a known production becomes a node whose children go to the slots named by their fields; when they
  do not fit the arities, it becomes a parse error without slots;
* an unknown production that consists of unnamed tokens becomes one terminal symbol, any other a
  blot;
* an error region becomes an error leaf, or a variation point that holds the leaf and the
  structured contents as its one alternative.

`Concrete.lower` builds the tree that the events describe.
-/

namespace CodeTree

namespace Lowering

def occursIn (piece : List Char) : List Char → Bool
  | [] => piece.isEmpty
  | c :: rest => piece.isPrefixOf (c :: rest) || occursIn piece rest

/-- Whether a node is a comment: an extra whose name mentions it. -/
def isComment (head : Concrete.Head) : Bool :=
  head.extra && occursIn "comment".toList head.name.toList

def kindOf? (language : Language) (head : Concrete.Head) : Option NodeKind :=
  if head.named && !head.error then NodeKind.resolve? language head.name else none

/-- Whether a node is an unknown production that only spells tokens. -/
def isSymbolLike (language : Language) (node : Concrete) : Bool :=
  node.head.named && !node.head.error && !node.children.isEmpty &&
    (NodeKind.resolve? language node.head.name).isNone &&
    node.children.all fun child => !child.head.named && !child.head.extra

/-- The fields that hold named nodes. Unnamed nodes of such a field are punctuation. -/
def namedFields (siblings : List Concrete) : List String :=
  siblings.filterMap fun child => if child.head.named then child.head.field else none

/-- The slot of a child: the one named by its field, if the parent declares it. -/
def slotOf? (language : Language) (parent : NodeKind) (fields : List String) (child : Concrete) :
    Option Slot := do
  let field ← child.head.field
  guard (child.head.named || !fields.contains field)
  guard (!isSymbolLike language child)
  let slot ← Slot.ofText? field
  guard (parent.declares slot)
  return slot

/-- Whether the children that have text behind `pos` fit the arities of a kind. -/
def fits (language : Language) (pos : Nat) (kind : NodeKind) (children : List Concrete) : Bool :=
  let present := children.filter fun child => !child.head.isEmpty && pos < child.head.span.stop
  kind.slots.all fun decl =>
    decl.rest || decl.arity.accepts (present.countP fun child =>
      slotOf? language kind (namedFields children) child == some decl.slot)

structure Setting where
  language : Language
  source : String
  deriving DecidableEq

/-- The events of a part of the source, and the offset at which it ends. -/
structure Emitted where
  events : List Event
  pos : Nat
  deriving DecidableEq

variable (setting : Setting)

def endOf (pos stop : Nat) : Nat := max pos (min stop setting.source.utf8ByteSize)

def textOf (pos stop : Nat) : String :=
  String.ofList (Utf8.slice pos (endOf setting pos stop) setting.source.toList)

/-- The text from `pos` to `stop` that no node covers. -/
def gap (pos stop : Nat) : Emitted :=
  if stop ≤ pos then ⟨[], pos⟩
  else
    let text := textOf setting pos stop
    ⟨[if Blank.isBlank text then .whitespace text else .blot none text], endOf setting pos stop⟩

def Emitted.thenGap (emitted : Emitted) (stop : Nat) : Emitted :=
  let rest := gap setting emitted.pos stop
  ⟨emitted.events ++ rest.events, rest.pos⟩

def leafEvent (slot : Option Slot) (head : Concrete.Head) (text : String) : Event :=
  if !head.named then .symbol slot text
  else
    match kindOf? setting.language head with
    | some kind => .leaf slot (if kind.isTerminal then kind else .special .terminal) text
    | none => .leaf slot (.special .terminal) text

def openedKind (pos : Nat) (kind : NodeKind) (children : List Concrete) : NodeKind :=
  if fits setting.language pos kind children then kind else .special .parseError

/-- The events of the children of a node, when error regions become variation points or not, by the
kind that the node is given and the offset at which the children start. -/
abbrev Below := (points : Bool) → (parent : NodeKind) → (pos : Nat) → Emitted

/-- The events of an error region from `pos` to `stop`. -/
def errorRegion (points : Bool) (pos : Nat) (slot : Option Slot) (stop : Nat) (below : Below) :
    Emitted :=
  let last := max stop pos
  let text := textOf setting pos last
  if points then
    let inner := below false (.special .parseError) pos
    let body := (inner.thenGap setting stop).thenGap setting last
    ⟨[.start slot (.special .variationPoint), .error (some .raw) text,
        .alternative (.special .parseError)] ++ body.events ++ [.finish, .finish], last⟩
  else ⟨[.error slot text], endOf setting pos last⟩

def structured (points : Bool) (pos : Nat) (slot : Option Slot) (kind : NodeKind) (stop : Nat)
    (below : Below) : Emitted :=
  let body := (below points kind pos).thenGap setting stop
  ⟨[.start slot kind] ++ body.events ++ [.finish], body.pos⟩

/-- The events of a node in a slot that starts at `pos` and has text. -/
def covered (points : Bool) (pos : Nat) (slot : Option Slot) (node : Concrete) (below : Below) :
    Emitted :=
  let head := node.head
  let stop := head.span.stop
  let text := textOf setting pos stop
  let single (event : Event) : Emitted := ⟨[event], endOf setting pos stop⟩
  if isComment head then single (.comment text)
  else if head.error then errorRegion setting points pos slot stop below
  else if node.children.isEmpty then single (leafEvent setting slot head text)
  else if isSymbolLike setting.language node then single (.symbol none text)
  else
    match kindOf? setting.language head with
    | none => single (.blot slot text)
    | some kind =>
      if kind.isTerminal then single (.leaf slot kind text)
      else structured setting points pos slot (openedKind setting pos kind node.children) stop below

mutual

/-- The events of a node in a slot. Nodes without text, or with none behind `pos`, have none. -/
def lowerNode (points : Bool) (pos : Nat) (slot : Option Slot) : Concrete → Emitted
  | .node head children =>
    if head.isEmpty || head.span.stop ≤ pos then ⟨[], pos⟩
    else
      let before := gap setting pos head.span.start
      let own := covered setting points before.pos slot (.node head children)
        fun points parent pos => lowerNodes points pos parent (namedFields children) children
      ⟨before.events ++ own.events, own.pos⟩

def lowerNodes (points : Bool) (pos : Nat) (parent : NodeKind) (fields : List String) :
    List Concrete → Emitted
  | [] => ⟨[], pos⟩
  | child :: rest =>
    let first := lowerNode points pos (slotOf? setting.language parent fields child) child
    let others := lowerNodes points first.pos parent fields rest
    ⟨first.events ++ others.events, others.pos⟩

end

def below (node : Concrete) : Below := fun points parent pos =>
  lowerNodes setting points pos parent (namedFields node.children) node.children

/-- The kind of the root: its own production if the children fit, else a parse error. -/
def rootKind (root : Concrete) : NodeKind :=
  match kindOf? setting.language root.head with
  | some kind =>
    if kind.isTerminal then .special .parseError else openedKind setting 0 kind root.children
  | none => .special .parseError

def events (points : Bool) (root : Concrete) : List Event :=
  let kind := rootKind setting root
  let stop := root.head.span.stop
  let body :=
    if root.head.error then errorRegion setting points 0 none stop (below setting root)
    else (below setting root points kind 0).thenGap setting stop
  [.start none kind] ++ (body.thenGap setting setting.source.utf8ByteSize).events ++ [.finish]

end Lowering

def Concrete.lower (language : Language) (source : String) (points : Bool) (root : Concrete) :
    Except TreeError Tree :=
  Tree.ofEvents language (Lowering.events ⟨language, source⟩ points root)

end CodeTree

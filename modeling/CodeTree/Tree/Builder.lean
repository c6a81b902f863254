import CodeTree.Tree.Event
import CodeTree.Tree.Validity

/-!
# Building trees from events

A tree is built from a stream of events in pre-order: nodes are opened, filled with leaves and
nested nodes, and closed. Leaves carry their text, and the source of the tree is all their texts
together.

Inside a variation point an alternative may be opened. Its leaves add nothing to the source: they
replay the text between the start of the variation point and the position at which the alternative
was opened. Alternatives can nest, so the replays form a stack.

A step never fails. It records what is wrong, and an event that makes no sense where it stands has
no other effect; `Builder.finish` reports what was recorded first.
-/

namespace CodeTree

namespace Builder

/-- A node that was added to an open node and waits for it to be closed. -/
structure Added where
  id : NodeId
  kind : NodeKind
  slot : Option Slot
  /-- An alternative, which is no child. -/
  detached : Bool
  deriving DecidableEq

structure OpenNode where
  id : NodeId
  kind : NodeKind
  /-- The offset at which the node starts. -/
  start : Nat
  /-- Whether the node was opened as an alternative. -/
  detached : Bool
  pending : List Added
  deriving DecidableEq

/-- The text that an alternative still has to replay. -/
structure Replay where
  cursor : Nat
  stop : Nat
  deriving DecidableEq

end Builder

/-- A tree under construction. The lists of open nodes and replays start with the innermost one. -/
structure Builder where
  language : Language
  source : String
  nodes : Array NodeData
  stack : List Builder.OpenNode
  replays : List Builder.Replay
  errors : List TreeError
  deriving DecidableEq

namespace Builder

def new (language : Language) : Builder := ⟨language, "", #[], [], [], []⟩

variable (builder : Builder)

/-- The offset at which the next leaf starts. -/
def position : Nat :=
  match builder.replays with
  | replay :: _ => replay.cursor
  | [] => builder.source.utf8ByteSize

def depth : Nat := builder.stack.length

def currentKind : Option NodeKind := builder.stack.head?.map (·.kind)

def record (error : TreeError) : Builder :=
  { builder with errors := builder.errors ++ [error] }

def recordIf (wrong : Bool) (error : TreeError) : Builder :=
  if wrong then builder.record error else builder

def recordForeign (kind : NodeKind) : Builder :=
  match kind.language? with
  | some language =>
    builder.recordIf (language != builder.language)
      (.malformed kind none (.foreignToBuilder language builder.language))
  | none => builder

/-- Adds a node and tells the innermost open node of it. The id is the number of nodes so far. A
word of 32 bits holds it for the first 2 ^ 32 nodes, and a tree with so many is refused when it is
finished (`Tree.idLimit`). -/
def push (kind : NodeKind) (span : Span) (slot : Option Slot) (detached : Bool) : Builder :=
  let id := builder.nodes.size
  let parent := builder.stack.head?.map (·.id)
  let stack := match builder.stack with
    | [] => []
    | node :: outer =>
      { node with pending := node.pending ++ [⟨id, kind, slot, detached⟩] } :: outer
  { builder with nodes := builder.nodes.push ⟨kind, span, parent, [], []⟩, stack }

def openNode (slot : Option Slot) (kind : NodeKind) (detached : Bool) : Builder :=
  let checked :=
    (builder.recordIf kind.isTerminal (.malformed kind slot .terminalOpened)).recordForeign kind
  if checked.stack.isEmpty && !checked.nodes.isEmpty then
    checked.record (.unbalanced .secondRoot)
  else
    let id := checked.nodes.size
    let start := checked.position
    let pushed := checked.push kind ⟨start, start⟩ slot detached
    { pushed with stack := ⟨id, kind, start, detached, []⟩ :: pushed.stack }

def openAlternative (kind : NodeKind) : Builder :=
  match builder.stack with
  | [] => builder.record (.unbalanced .alternativeOutside)
  | owner :: _ =>
    if owner.kind ≠ .special .variationPoint then
      builder.record (.malformed owner.kind (some .alternatives) .alternativeElsewhere)
    else
      let replay : Replay := ⟨owner.start, builder.position⟩
      { builder with replays := replay :: builder.replays }.openNode (some .alternatives) kind true

def target? (kind : NodeKind) (pending : Added) : Option Nat :=
  match pending.slot with
  | some slot => kind.slotIndex? slot
  | none => if pending.kind.isNamed then kind.restIndex? else none

/-- The nodes of each declared slot, in the order in which they were added. -/
def distribute (kind : NodeKind) (pending : List Added) : List (List NodeId) :=
  (List.range kind.slots.length).map fun position =>
    (pending.filter fun held => target? kind held == some position).map (·.id)

def undeclared? (kind : NodeKind) (pending : Added) : Option TreeError :=
  pending.slot.bind fun slot =>
    if (kind.slotIndex? slot).isSome then none else some (.undeclaredSlot kind slot.text)

def miscounted? (kind : NodeKind) (decl : SlotDecl) (ids : List NodeId) : Option TreeError :=
  if decl.arity.accepts ids.length then none
  else some (.malformed kind (some decl.slot) (.receivedCount ids.length decl.arity))

/-- What is wrong with a node that is closed: undeclared slots in the order of the nodes, then
arities in the order of the declarations. -/
def closingErrors (kind : NodeKind) (pending : List Added) : List TreeError :=
  pending.filterMap (undeclared? kind) ++
    (kind.slots.zip (distribute kind pending)).filterMap fun (decl, ids) =>
      miscounted? kind decl ids

/-- Closes the innermost open node and hands what was added to it to the slots of its kind. -/
def closeNode : Builder :=
  match builder.stack with
  | [] => builder.record (.unbalanced .unmatchedFinish)
  | node :: outer =>
    let children := (node.pending.filter (!·.detached)).map (·.id)
    let slots := distribute node.kind node.pending
    let stop := builder.position
    { builder with
      nodes := builder.nodes.modify node.id fun data =>
        { data with span := ⟨data.span.start, stop⟩, children, slots }
      stack := outer
      replays := if node.detached then builder.replays.drop 1 else builder.replays
      errors := builder.errors ++ closingErrors node.kind node.pending }

/-- Whether a text comes next in what an alternative has to replay. -/
def Replay.fits (replay : Replay) (source text : String) : Bool :=
  replay.cursor + text.utf8ByteSize ≤ replay.stop &&
    text.toList.isPrefixOf (Utf8.drop replay.cursor source.toList)

def addLeaf (slot : Option Slot) (kind : NodeKind) (text : String) : Builder :=
  let checked :=
    (builder.recordIf (!kind.isTerminal) (.malformed kind slot .leafWithStructure)).recordForeign
      kind
  if checked.stack.isEmpty then checked.record (.unbalanced .leafOutside)
  else
    let start := checked.position
    let span : Span := ⟨start, start + text.utf8ByteSize⟩
    match checked.replays with
    | [] =>
      let source := checked.source ++ text
      { checked with source }.push kind span slot false
    | replay :: outer =>
      if replay.fits checked.source text then
        let replays := { replay with cursor := span.stop } :: outer
        { checked with replays }.push kind span slot false
      else checked.record (.alternativeMismatch replay.cursor text)

def step : Event → Builder
  | .start slot kind => builder.openNode slot kind false
  | .alternative kind => builder.openAlternative kind
  | .finish => builder.closeNode
  | .leaf slot kind text => builder.addLeaf slot kind text

def run (events : List Event) : Builder := events.foldl step builder

/-- The finished tree, or what went wrong first. -/
def finish : Except TreeError Tree :=
  match builder.errors, builder.stack with
  | error :: _, _ => .error error
  | [], _ :: _ => .error (.unbalanced (.stillOpen builder.stack.length))
  | [], [] =>
    if builder.nodes.isEmpty then .error (.unbalanced .noRoot)
    else (Tree.ofParts builder.language builder.source builder.nodes).validated

@[simp] theorem run_nil : builder.run [] = builder := rfl

@[simp] theorem run_cons (event : Event) (events : List Event) :
    builder.run (event :: events) = (builder.step event).run events := rfl

theorem run_append (first second : List Event) :
    builder.run (first ++ second) = (builder.run first).run second := by
  simp [run, List.foldl_append]

end Builder

def Tree.ofEvents (language : Language) (events : List Event) : Except TreeError Tree :=
  ((Builder.new language).run events).finish

end CodeTree

import CodeTree.Tree.Error
import CodeTree.Text.Utf8
import CodeTree.Tree.LineTable

/-!
# Trees

A tree holds its source and an array of nodes; links between nodes are positions in the array. A
node stores no text: its text is the part of the source that its span covers. The alternatives of a
variation point are stored in a slot and are not among its children.

The line table is kept beside the source from which it is computed, so two trees with the same
language, source and nodes are equal (`Tree.ext_parts`).
-/

namespace CodeTree

structure NodeData where
  kind : NodeKind
  span : Span
  parent : Option NodeId
  children : List NodeId
  /-- One list for each slot that the kind declares, in the same order. -/
  slots : List (List NodeId)
  deriving DecidableEq

structure Tree where
  language : Language
  source : String
  nodes : Array NodeData
  lineStarts : Array Nat := lineTable source
  lineStarts_eq : lineStarts = lineTable source := by rfl
  deriving DecidableEq

namespace Tree

theorem ext_parts {a b : Tree} (language : a.language = b.language) (source : a.source = b.source)
    (nodes : a.nodes = b.nodes) : a = b := by
  obtain ⟨la, sa, na, ta, ha⟩ := a
  obtain ⟨lb, sb, nb, tb, hb⟩ := b
  subst ha hb
  simp only at language source nodes
  subst language source nodes
  rfl

def ofParts (language : Language) (source : String) (nodes : Array NodeData) : Tree :=
  { language, source, nodes }

def size (tree : Tree) : Nat := tree.nodes.size

def isEmpty (tree : Tree) : Bool := tree.nodes.isEmpty

def sourceSize (tree : Tree) : Nat := tree.source.utf8ByteSize

/-- Whether the source has whole characters from one end of a span to the other. -/
def covers (tree : Tree) (span : Span) : Bool :=
  Utf8.isRange span.start span.stop tree.source.toList

def lineColumn (tree : Tree) (offset : Nat) : LineColumn :=
  CodeTree.lineColumn tree.lineStarts offset

def location (tree : Tree) (span : Span) : Location :=
  ⟨span.start.toUInt32, span.stop.toUInt32, tree.lineColumn span.start,
    tree.lineColumn span.stop⟩

end Tree

/-- A node of a tree: a position inside the array of nodes. -/
structure Node (tree : Tree) where
  id : NodeId
  id_lt : id < tree.nodes.size
  deriving DecidableEq

namespace Tree

variable (tree : Tree)

def node? (id : NodeId) : Option (Node tree) :=
  if h : id < tree.nodes.size then some ⟨id, h⟩ else none

def node (id : NodeId) : Except TreeError (Node tree) :=
  if h : id < tree.nodes.size then .ok ⟨id, h⟩ else .error (.noSuchNode id)

def nodesAt (ids : List NodeId) : Except TreeError (List (Node tree)) := ids.mapM tree.node

def root : Except TreeError (Node tree) := tree.node NodeId.root

/-- Every node in the order of the ids, alternatives included. -/
def allNodes : List (Node tree) :=
  (List.finRange tree.nodes.size).map fun (index : Fin _) => ⟨index.val, index.isLt⟩

end Tree

namespace Node

variable {tree : Tree} (node : Node tree)

def index : Fin tree.nodes.size := ⟨node.id, node.id_lt⟩

def data : NodeData := tree.nodes[node.index]

def kind : NodeKind := node.data.kind

def span : Span := node.data.span

def has (capability : Capability) : Bool := node.kind.has capability

def isTerminal : Bool := node.kind.isTerminal

def isTrivia : Bool := node.kind.isTrivia

def isError : Bool := node.kind.isError

def location : Location := tree.location node.span

def text : Except TreeError String :=
  if tree.covers node.span then
    .ok (String.ofList (Utf8.slice node.span.start node.span.stop tree.source.toList))
  else .error (.malformed node.kind none (.notInSource node.span))

def parent : Except TreeError (Option (Node tree)) :=
  match node.data.parent with
  | none => .ok none
  | some id => (tree.node id).map some

def children : Except TreeError (List (Node tree)) := tree.nodesAt node.data.children

/-- The children that are neither trivia nor terminal symbols. -/
def namedChildren : Except TreeError (List (Node tree)) :=
  node.children.map fun children => children.filter (·.kind.isNamed)

def parentSlot : Except TreeError (Option Slot) := do
  match ← node.parent with
  | none => return none
  | some parent =>
    return ((parent.kind.slots.zip parent.data.slots).find? (·.2.contains node.id)).map
      (·.1.slot)

def describe : String := node.kind.text ++ node.id.text ++ " @ " ++ node.span.text

end Node

end CodeTree

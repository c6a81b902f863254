import CodeTree.Kind

/-!
# Building events

A tree is described by a stream of events in pre-order: nodes are opened, filled with leaves and
nested nodes, and closed. An event may name the slot of the node it adds; without a slot the node
goes to the rest slot or to none. `Builder` gives the tree that a stream describes.
-/

namespace CodeTree

inductive Event where
  | start (slot : Option Slot) (kind : NodeKind)
  /-- Opens an attempt to structure the text of the innermost variation point. -/
  | alternative (kind : NodeKind)
  | finish
  | leaf (slot : Option Slot) (kind : NodeKind) (text : String)
  deriving DecidableEq

namespace Event

def symbol (slot : Option Slot) (text : String) : Event :=
  .leaf slot (.special .terminalSymbol) text

def whitespace (text : String) : Event := .leaf none (.special .innerWhitespace) text

def comment (text : String) : Event := .leaf none (.special .comment) text

def blot (slot : Option Slot) (text : String) : Event := .leaf slot (.special .blot) text

def error (slot : Option Slot) (text : String) : Event := .leaf slot (.special .errorTree) text

end Event

end CodeTree

import CodeTree.Tree.Slots

/-!
# Typed views

A view is a node known to be of one production. It has one accessor for each slot that the
production declares, and the accessor's result follows the arity: a node, a node or nothing, or
a list.
-/

namespace CodeTree

inductive Field (tree : Tree) where
  | one (node : Node tree)
  | optional (node : Option (Node tree))
  | many (nodes : List (Node tree))
  deriving DecidableEq

namespace Field

variable {tree : Tree}

def nodes : Field tree → List (Node tree)
  | .one node => [node]
  | .optional node => node.toList
  | .many nodes => nodes

end Field

namespace Node

variable {tree : Tree} (node : Node tree)

def project (arity : Arity) (position : Nat) : Except TreeError (Field tree) := do
  let (decl, ids) ← node.slotAt position
  match arity, ids with
  | .one, [id] => return .one (← tree.node id)
  | .one, ids => node.malformed (some decl.slot) (.notExactlyOne ids.length)
  | .optional, [] => return .optional none
  | .optional, [id] => return .optional (some (← tree.node id))
  | .optional, ids => node.malformed (some decl.slot) (.notAtMostOne ids.length)
  | .many, ids => return .many (← tree.nodesAt ids)

end Node

/-- A node of the production at a position of a grammar. -/
structure View (tree : Tree) where
  language : Language
  index : Fin language.grammar.length
  node : Node tree
  kind_eq : node.kind = .grammar language index

namespace View

variable {tree : Tree}

def cast? (language : Language) (index : Fin language.grammar.length) (node : Node tree) :
    Option (View tree) :=
  if h : node.kind = .grammar language index then some ⟨language, index, node, h⟩ else none

/-- The view of a node, by its own kind; special kinds have none. -/
def of? (node : Node tree) : Option (View tree) :=
  match h : node.kind with
  | .special _ => none
  | .grammar language index => some ⟨language, index, node, h⟩

variable (view : View tree)

def production : Production := view.language.grammar[view.index]

/-- The accessor of a declared slot; the position is that of the slot's declaration. -/
def access (decl : SlotDecl) : Except TreeError (Field tree) :=
  match SlotDecl.indexOf? view.production.slots decl.slot with
  | some position => view.node.project decl.arity position
  | none => .error (.undeclaredSlot view.node.kind decl.slot.text)

def fields : List (Slot × Except TreeError (Field tree)) :=
  view.production.slots.map fun decl => (decl.slot, view.access decl)

end View

end CodeTree

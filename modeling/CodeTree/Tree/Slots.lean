import CodeTree.Tree.Basic

/-!
# Reading slots

A slot is read by its declaration: a singular slot gives a node or nothing, a plural slot a list.
`one`, `optional` and `many` ask for a given arity and fail for others. The stored nodes are counted
again whenever a slot is read, so a malformed node is reported and never misread.
-/

namespace CodeTree

inductive SlotValue (tree : Tree) where
  /-- The node of a singular slot, if it is filled. -/
  | single (node : Option (Node tree))
  | list (nodes : List (Node tree))
  deriving DecidableEq

namespace SlotValue

variable {tree : Tree}

def isEmpty : SlotValue tree → Bool
  | .single node => node.isNone
  | .list nodes => nodes.isEmpty

def nodes : SlotValue tree → List (Node tree)
  | .single node => node.toList
  | .list nodes => nodes

end SlotValue

namespace Node

variable {tree : Tree} (node : Node tree)

def malformed {α : Type} (slot : Option Slot) (defect : Defect) : Except TreeError α :=
  .error (.malformed node.kind slot defect)

/-- The declaration and the stored ids of the slot at a position. -/
def slotAt (position : Nat) : Except TreeError (SlotDecl × List NodeId) :=
  match node.kind.slots[position]? with
  | none => node.malformed none (.noSlotAt position)
  | some decl =>
    match node.data.slots[position]? with
    | none => node.malformed (some decl.slot) .slotStorageMissing
    | some ids => .ok (decl, ids)

def slotValue (slot : Slot) : Except TreeError (SlotValue tree) :=
  match node.kind.slotIndex? slot with
  | none => .error (.undeclaredSlot node.kind slot.text)
  | some position => do
    let (decl, ids) ← node.slotAt position
    match decl.arity, ids with
    | .many, ids => return .list (← tree.nodesAt ids)
    | .optional, [] => return .single none
    | _, [id] => return .single (some (← tree.node id))
    | arity, ids => node.malformed (some slot) (.heldCount ids.length arity)

def slotNamed (text : String) : Except TreeError (SlotValue tree) := do
  let decl ← node.kind.slotByText text
  node.slotValue decl.slot

/-- Whether a slot of one arity may be read as another: an optional read takes any singular slot. -/
def canRead : (requested declared : Arity) → Bool
  | .one, declared => declared == .one
  | .optional, declared => declared.isSingular
  | .many, declared => declared == .many

def expectArity (slot : Slot) (requested : Arity) : Except TreeError Unit := do
  let decl ← node.kind.requireSlot slot
  ensure (canRead requested decl.arity)
    (.arityMismatch node.kind slot decl.arity requested)

def one (slot : Slot) : Except TreeError (Node tree) := do
  node.expectArity slot .one
  match ← node.slotValue slot with
  | .single (some held) => .ok held
  | _ => node.malformed (some slot) .requiredSlotEmpty

/-- The node of a singular slot, if it is filled. -/
def optional (slot : Slot) : Except TreeError (Option (Node tree)) := do
  node.expectArity slot .optional
  match ← node.slotValue slot with
  | .single held => .ok held
  | .list _ => .ok none

def many (slot : Slot) : Except TreeError (List (Node tree)) := do
  node.expectArity slot .many
  return (← node.slotValue slot).nodes

/-- The filled slots in declaration order; a slot that cannot be read stands with its error. -/
def filledSlots : List (Slot × Except TreeError (SlotValue tree)) :=
  (node.kind.slots.map fun decl => (decl.slot, node.slotValue decl.slot)).filter fun (_, read) =>
    match read with
    | .ok value => !value.isEmpty
    | .error _ => true

end Node

end CodeTree

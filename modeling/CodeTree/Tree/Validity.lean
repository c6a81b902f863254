import CodeTree.Tree.Basic

/-!
# Valid trees

A tree is valid when its root covers the source, kinds belong to its language, spans are ranges of
whole characters, children follow one another and fill their parent, slots hold as many children
as their arity allows, and every node but the root is owned exactly once: as a child, or as an
alternative of a variation point. `Tree.validate` reports the first violation in the order of
the ids, and counts owners only after all nodes have passed.
-/

namespace CodeTree

namespace NodeData

/-- Whether a slot of the node holds alternatives, which are not children. -/
def holdsAlternatives (kind : NodeKind) (slot : Slot) : Bool :=
  slot == .alternatives && kind == .special .variationPoint

/-- The nodes that the node owns: its children and, for a variation point, its alternatives. -/
def owned (data : NodeData) : List NodeId :=
  data.children ++ (data.kind.slots.zip data.slots).flatMap fun (decl, ids) =>
    if holdsAlternatives data.kind decl.slot then ids else []

end NodeData

namespace Tree

variable (tree : Tree)

/-- Checks that children point back to the node `id` and follow one another from `cursor` on;
gives the offset at which the last of them ends. -/
def checkChildren (id : NodeId) (kind : NodeKind) (cursor : Nat) :
    List NodeId → Except TreeError Nat
  | [] => .ok cursor
  | child :: rest =>
    match tree.nodes[child]? with
    | none => .error (.malformed kind none (.missingChild child))
    | some data =>
      if data.parent ≠ some id then .error (.malformed kind none (.strayChild child))
      else if data.span.start ≠ cursor then
        .error (.malformed kind none (.childStart child data.span.start cursor))
      else checkChildren id kind data.span.stop rest

def checkSlotted (id : NodeId) (owner : NodeData) (slot : Slot) (slotted : NodeId) :
    Except TreeError Unit :=
  match tree.nodes[slotted]? with
  | none => .error (.malformed owner.kind none (.missingSlotted slotted))
  | some data => do
    ensure (data.parent == some id)
      (.malformed owner.kind (some slot) (.slottedElsewhere slotted))
    if NodeData.holdsAlternatives owner.kind slot then
      ensure (owner.span.start ≤ data.span.start && data.span.stop ≤ owner.span.stop)
        (.malformed owner.kind (some slot) .alternativeOutside)
    else
      ensure (owner.children.contains slotted)
        (.malformed owner.kind (some slot) (.slottedNotChild slotted))

def checkSlot (id : NodeId) (owner : NodeData) (decl : SlotDecl) (ids : List NodeId) :
    Except TreeError Unit := do
  ensure (decl.arity.accepts ids.length)
    (.malformed owner.kind (some decl.slot) (.heldCount ids.length decl.arity))
  ids.forM (tree.checkSlotted id owner decl.slot)

def checkKind (kind : NodeKind) : Except TreeError Unit :=
  match kind.language? with
  | some language =>
    ensure (language == tree.language)
      (.malformed kind none (.foreignToTree language tree.language))
  | none => .ok ()

def checkNode (id : NodeId) (data : NodeData) : Except TreeError Unit := do
  let kind := data.kind
  tree.checkKind kind
  ensure (tree.covers data.span) (.malformed kind none (.notInSource data.span))
  ensure (!kind.isTerminal || (data.children.isEmpty && data.slots.isEmpty))
    (.malformed kind none .terminalWithChildren)
  let cursor ← tree.checkChildren id kind data.span.start data.children
  ensure (kind.isTerminal || cursor == data.span.stop)
    (.malformed kind none (.childrenEnd cursor data.span.stop))
  ensure (kind.slots.length == data.slots.length)
    (.malformed kind none (.slotCount data.slots.length kind.slots.length))
  (kind.slots.zip data.slots).forM fun (decl, ids) => tree.checkSlot id data decl ids

def ownerCounts : Array Nat :=
  (tree.nodes.toList.flatMap NodeData.owned).foldl (fun counts id => counts.modify id (· + 1))
    (Array.replicate tree.nodes.size 0)

def checkOwners : Except TreeError Unit :=
  let counts := tree.ownerCounts
  (tree.allNodes.drop 1).forM fun node =>
    let count := counts.getD node.id 0
    ensure (count == 1) (.malformed node.kind none (.references node.id count))

def checkRoot : Except TreeError Unit :=
  match tree.nodes[NodeId.root]? with
  | none => .error (.malformed (.special .parseError) none .noRoot)
  | some root => do
    ensure root.parent.isNone (.malformed root.kind none .rootHasParent)
    ensure (root.span == ⟨0, tree.sourceSize⟩)
      (.malformed root.kind none (.rootSpan root.span tree.sourceSize))

/-- The largest number of nodes that a tree may have. -/
def idLimit : Nat := 0xffffffff

/-- Reports the first violation. -/
def validate : Except TreeError Unit := do
  ensure (tree.size ≤ idLimit) (.malformed (.special .parseError) none .tooManyNodes)
  tree.checkRoot
  tree.allNodes.forM fun node => tree.checkNode node.id node.data
  tree.checkOwners

def Valid : Prop := tree.validate = .ok ()

instance : Decidable tree.Valid :=
  match h : tree.validate with
  | .ok () => isTrue h
  | .error _ => isFalse fun valid => by rw [Valid, h] at valid; cases valid

def validated : Except TreeError Tree := tree.validate.map fun _ => tree

end Tree

end CodeTree

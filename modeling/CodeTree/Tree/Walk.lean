import CodeTree.Tree.Basic

/-!
# Walking a tree

The walk keeps a list of nodes to visit. It visits the first one and puts its children in front of
the others, so that nodes come in pre-order. In a valid tree a walk meets no node twice unless it
goes round a cycle, so a walk that takes more steps than there are nodes never ends; it fails with
`endless`. Alternatives are not children and are not visited.
-/

namespace CodeTree

namespace Node

variable {tree : Tree}

/-- Visits the pending nodes and all that is below them, in at most the given number of steps;
nothing if the steps do not suffice. -/
def visit : Nat → List (Node tree) → Except TreeError (Option (List (Node tree)))
  | _, [] => .ok (some [])
  | 0, _ :: _ => .ok none
  | steps + 1, node :: pending => do
    let children ← node.children
    return (← visit steps (children ++ pending)).map (node :: ·)

variable (node : Node tree)

/-- The node and everything below it through children, in pre-order. -/
def descendants : Except TreeError (List (Node tree)) := do
  match ← visit tree.nodes.size [node] with
  | some nodes => return nodes
  | none => .error (.endless node.id)

/-- The descendants without children, in source order. -/
def leaves : Except TreeError (List (Node tree)) := do
  return (← node.descendants).filter (·.data.children.isEmpty)

end Node

namespace Tree

variable (tree : Tree)

def nodesWith (capability : Capability) : Except TreeError (List (Node tree)) := do
  let root ← tree.root
  return (← root.descendants).filter (·.has capability)

def toSource : Except TreeError String := do
  let root ← tree.root
  let texts ← (← root.leaves).mapM Node.text
  return String.join texts

end Tree

end CodeTree

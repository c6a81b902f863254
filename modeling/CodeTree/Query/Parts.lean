import CodeTree.Query.Role
import CodeTree.Tree.Slots
import CodeTree.Tree.Walk

/-!
# Calls and functions

The queries read the pieces of calls and functions by the role of the node's kind, so they work for
every language alike. A query about a capability that the node's kind does not have fails.
-/

namespace CodeTree

inductive QueryError where
  | capabilityNotSupported (kind : NodeKind) (capability : Capability)
  /-- The kind has the capability and no role that fits it. -/
  | unhandledKind (capability : Capability) (kind : NodeKind)
  | tree (error : TreeError)
  deriving DecidableEq

namespace QueryError

def message : QueryError → String
  | .capabilityNotSupported kind capability =>
    "`" ++ kind.text ++ "` does not support `" ++ capability.text ++ "` queries"
  | .unhandledKind capability kind =>
    "no `" ++ capability.text ++ "` rule for `" ++ kind.text ++ "`"
  | .tree error => error.message

end QueryError

instance : MonadLift (Except TreeError) (Except QueryError) where
  monadLift := Except.mapError .tree

namespace Node

variable {tree : Tree} (node : Node tree)

def first (slot : Slot) : Except TreeError (Option (Node tree)) := do
  return (← node.slotValue slot).nodes.head?

/-- The nodes of a slot, list nodes replaced by their items. -/
def items (slot : Slot) : Except TreeError (List (Node tree)) := do
  let parts ← (← node.slotValue slot).nodes.mapM fun held =>
    if held.kind.declares .items then held.many .items else .ok [held]
  return parts.flatten

/-- A node and what follows it through `declarator` slots, for at most the given number of nodes;
nothing if there are more. -/
def chainWithin : Nat → Option (Node tree) → Except TreeError (Option (List (Node tree)))
  | _, none => .ok (some [])
  | 0, some _ => .ok none
  | bound + 1, some held => do
    let next ← if held.kind.declares .declarator then held.first .declarator else .ok none
    return (← chainWithin bound next).map (held :: ·)

/-- The node in a slot and the nodes reached from it through `declarator` slots, outermost first. -/
def declaratorChain (slot : Slot) : Except TreeError (List (Node tree)) := do
  match ← chainWithin tree.nodes.size (← node.first slot) with
  | some chain => return chain
  | none => .error (.endless node.id)

/-- The elements of a list. Of a chain of declarators the innermost list is the function's own. -/
def readList : ListRule → Except TreeError (List (Node tree))
  | .items slot => node.items slot
  | .declarator slot => do
    match (← node.declaratorChain slot).reverse.find? (·.kind.declares .parameters) with
    | some declarator => declarator.items .parameters
    | none => return []
  | .absent => .ok []

def require (capability : Capability) : Except QueryError Unit :=
  if node.has capability then .ok ()
  else .error (.capabilityNotSupported node.kind capability)

def callRule : Except QueryError CallRule := do
  node.require .call
  match node.kind.role with
  | .call rule => return rule
  | _ => .error (.unhandledKind .call node.kind)

def functionRule : Except QueryError FunctionRule := do
  node.require .function
  match node.kind.role with
  | .function rule => return rule
  | _ => .error (.unhandledKind .function node.kind)

def callee : Except QueryError (Node tree) := do
  let rule ← node.callRule
  node.one rule.callee

/-- The arguments of a call in source order, without punctuation. -/
def callArguments : Except QueryError (List (Node tree)) := do
  let rule ← node.callRule
  node.readList rule.arguments

def nameNode : NameRule → Except TreeError (Option (Node tree))
  | .slot slot => node.first slot
  | .declarator slot => do
    return (← node.declaratorChain slot).find? (·.has .identifier)
  | .anonymous => .ok none

def functionName : Except QueryError (Option String) := do
  let rule ← node.functionRule
  match ← node.nameNode rule.name with
  | some name => return some (← name.text)
  | none => return none

def functionParameters : Except QueryError (List (Node tree)) := do
  let rule ← node.functionRule
  let lists ← (rule.parameters.mapM node.readList : Except TreeError _)
  return lists.flatten

def functionBody : Except QueryError (Option (Node tree)) := do
  let rule ← node.functionRule
  node.first rule.body

end Node

structure CallParts (tree : Tree) where
  node : Node tree
  callee : Node tree
  arguments : List (Node tree)
  deriving DecidableEq

structure FunctionParts (tree : Tree) where
  node : Node tree
  name : Option String
  parameters : List (Node tree)
  body : Option (Node tree)
  deriving DecidableEq

namespace Node

variable {tree : Tree} (node : Node tree)

def callParts : Except QueryError (CallParts tree) := do
  return ⟨node, ← node.callee, ← node.callArguments⟩

def functionParts : Except QueryError (FunctionParts tree) := do
  return ⟨node, ← node.functionName, ← node.functionParameters, ← node.functionBody⟩

end Node

namespace Tree

variable (tree : Tree)

/-- Every call of a tree in pre-order; a call that cannot be read stands with its error. -/
def calls : Except TreeError (List (Except QueryError (CallParts tree))) := do
  return (← tree.nodesWith .call).map Node.callParts

/-- Every function of a tree in pre-order; one that cannot be read stands with its error. -/
def functions : Except TreeError (List (Except QueryError (FunctionParts tree))) := do
  return (← tree.nodesWith .function).map Node.functionParts

end Tree

end CodeTree

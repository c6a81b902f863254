import CodeTree.Tree.Basic

/-!
# S-expressions

The s-expression of a node shows its kind, its named children, each behind the slot it is in, and
last the alternatives of a variation point. Terminal nodes show their text in quotes. Trivia and
terminal symbols are left out.
-/

namespace CodeTree

namespace Node

variable {tree : Tree}

/-- The nodes that are stored as alternatives of an error node. -/
def alternatives (node : Node tree) : Except TreeError (List (Node tree)) :=
  match node.kind.isError, node.kind.slotIndex? .alternatives with
  | true, some position => tree.nodesAt (node.data.slots.getD position [])
  | _, _ => .ok []

def slotLabel : Option Slot → String
  | none => ""
  | some slot => slot.text ++ ": "

/-- The expression of a node in a slot, for at most the given depth of nesting. -/
def expressionIn : Nat → Option Slot → Node tree → Except TreeError String
  | 0, _, node => .error (.endless node.id)
  | depth + 1, slot, node =>
    if node.isTerminal then do
      let text ← node.text
      return slotLabel slot ++ "(" ++ node.kind.name ++ " " ++ Quoted.render text ++ ")"
    else do
      let children ← (← node.namedChildren).mapM fun child => do
        expressionIn depth (← child.parentSlot) child
      let alternatives ← (← node.alternatives).mapM (expressionIn depth (some .alternatives))
      let parts := (children ++ alternatives).map (" " ++ ·)
      return slotLabel slot ++ "(" ++ node.kind.name ++ String.join parts ++ ")"

def expression (node : Node tree) : Except TreeError String :=
  expressionIn tree.nodes.size none node

end Node

end CodeTree

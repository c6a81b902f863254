import CodeTree.Tree.Span

/-!
# Concrete trees

A concrete tree is what a parser gives for a source: every node has the name of its production or
the text of its token, the field it fills in its parent, a range of bytes, and four marks. A named
node stands for a production, an unnamed one for a fixed token. Extra nodes may stand anywhere,
missing nodes were made up by the parser, and error nodes hold what it could not parse.

A concrete tree may be given as the list of its nodes in pre-order, each with the number of its
children (`Concrete.ofPreorder?`).
-/

namespace CodeTree

namespace Concrete

structure Head where
  name : String
  field : Option String
  named : Bool
  extra : Bool
  missing : Bool
  error : Bool
  span : Span
  deriving DecidableEq

namespace Head

def isEmpty (head : Head) : Bool := head.missing || head.span.isEmpty

end Head

end Concrete

inductive Concrete where
  | node (head : Concrete.Head) (children : List Concrete)

namespace Concrete

def head : Concrete → Head
  | .node head _ => head

def children : Concrete → List Concrete
  | .node _ children => children

/-- Puts a node in front of the trees that come after it: the first ones are its children. -/
def attach (entry : Head × Nat) (after : Option (List Concrete)) : Option (List Concrete) := do
  let trees ← after
  if entry.2 ≤ trees.length then
    some (.node entry.1 (trees.take entry.2) :: trees.drop entry.2)
  else none

/-- The tree whose nodes in pre-order, with their numbers of children, are given. -/
def ofPreorder? (entries : List (Head × Nat)) : Option Concrete :=
  match entries.foldr attach (some []) with
  | some [tree] => some tree
  | _ => none

end Concrete

end CodeTree

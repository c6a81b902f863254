/-!
# Node ids and spans

Nodes are numbered in the order in which they were created; the root has number 0. The span of a
node is a half-open range of bytes of the source.
-/

namespace CodeTree

/-- Ids have no bound here. As words of 32 bits they are the same for the first 2 ^ 32 nodes, and a
tree with as many is refused (`Tree.idLimit`). -/
abbrev NodeId := Nat

namespace NodeId

def root : NodeId := 0

def text (id : NodeId) : String := "#" ++ toString id

end NodeId

/-- The bytes from `start` up to `stop`. -/
structure Span where
  start : Nat
  stop : Nat
  deriving DecidableEq, Repr

namespace Span

def length (span : Span) : Nat := span.stop - span.start

def isEmpty (span : Span) : Bool := span.start == span.stop

def text (span : Span) : String := toString span.start ++ ".." ++ toString span.stop

end Span

end CodeTree

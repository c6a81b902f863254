import CodeTree.Concrete
import CodeTree.Json

/-!
# The stored form of a concrete tree

A concrete tree is stored as the list of its nodes in pre-order. Each node is a list of its name,
its field or null, its marks as letters (`n` for named, `x` for extra, `m` for missing, `e` for
error), the two ends of its range, and the number of its children.
-/

namespace CodeTree.Concrete

def storedField? : Json → Option (Option String)
  | .null => some none
  | .string field => some (some field)
  | _ => none

def storedEntry? : Json → Option (Head × Nat)
  | .array [.string name, field, .string marks, .nat start, .nat stop, .nat count] => do
    let marked (letter : Char) : Bool := marks.toList.contains letter
    return (⟨name, ← storedField? field, marked 'n', marked 'x', marked 'm', marked 'e',
      ⟨start, stop⟩⟩, count)
  | _ => none

def ofJson? (json : Json) : Option Concrete := (Json.listOf? storedEntry? json).bind ofPreorder?

end CodeTree.Concrete

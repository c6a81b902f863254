/-!
# Lines and columns

The line table of a source lists the byte offsets at which its lines start. The line of an offset is
found by binary search: it is the number of starts that are not behind the offset. Lines and columns
count from 1, columns in bytes.
-/

namespace CodeTree

/-- The offsets behind the newlines of a text whose first byte has the given offset. -/
def newlineEnds (offset : Nat) : List Char → List Nat
  | [] => []
  | c :: rest =>
    if c = '\n' then (offset + 1) :: newlineEnds (offset + 1) rest
    else newlineEnds (offset + c.utf8Size) rest

/-- The offsets at which lines start: 0, and behind every newline. -/
def lineTable (source : String) : Array Nat := (0 :: newlineEnds 0 source.toList).toArray

/-- The number of entries of an increasing table that are at most `offset`, given that it lies
between `low` and `high`. -/
def countUpTo (table : Array Nat) (offset low high : Nat) : Nat :=
  if low < high then
    let middle := (low + high) / 2
    if table.getD middle 0 ≤ offset then countUpTo table offset (middle + 1) high
    else countUpTo table offset low middle
  else low
termination_by high - low

/-- A line and a byte column, both from 1. -/
structure LineColumn where
  line : UInt32
  column : UInt32
  deriving DecidableEq, Repr

def lineColumn (table : Array Nat) (offset : Nat) : LineColumn :=
  let line := countUpTo table offset 0 table.size - 1
  ⟨line.toUInt32 + 1, (offset - table.getD line 0).toUInt32 + 1⟩

structure Location where
  offsetStart : UInt32
  offsetStop : UInt32
  start : LineColumn
  stop : LineColumn
  deriving DecidableEq, Repr

namespace Location

def text (location : Location) : String :=
  toString location.start.line.toNat ++ ":" ++ toString location.start.column.toNat

end Location

example : lineTable "a\né\n\nx" = #[0, 2, 5, 6] := by decide +kernel

end CodeTree

/-!
# Ranges of code points

A property of characters is given by a list of ranges in increasing order, both ends included.
-/

namespace CodeTree

abbrev CharRange := Nat × Nat

namespace CharRange

/-- Whether one of the ranges contains the code point. The ranges are in increasing order, so the
search stops at the first one that starts behind it. -/
def anyContains : List CharRange → Nat → Bool
  | [], _ => false
  | (first, last) :: rest, code =>
    if code < first then false else code ≤ last || anyContains rest code

def sorted : List CharRange → Bool
  | [] => true
  | [(first, last)] => first ≤ last
  | (first, last) :: (next, stop) :: rest =>
    first ≤ last && last < next && sorted ((next, stop) :: rest)

end CharRange

end CodeTree

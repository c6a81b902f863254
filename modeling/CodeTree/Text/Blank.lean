import CodeTree.Text.CharRange

/-!
# Blank characters

The characters with the property White_Space. Text between tokens that consists of blank characters
alone is whitespace.
-/

namespace CodeTree.Blank

def ranges : List CharRange := [
  (0x9, 0xd), (0x20, 0x20), (0x85, 0x85), (0xa0, 0xa0), (0x1680, 0x1680), (0x2000, 0x200a),
  (0x2028, 0x2029), (0x202f, 0x202f), (0x205f, 0x205f), (0x3000, 0x3000)]

def contains (c : Char) : Bool := CharRange.anyContains ranges c.toNat

def isBlank (text : String) : Bool := text.toList.all contains

end CodeTree.Blank

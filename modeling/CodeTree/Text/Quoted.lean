import CodeTree.Text.GraphemeExtend
import CodeTree.Text.Unprintable

/-!
# Quoted text

A text between double quotes, in which quotes, backslashes and every character that could not be
seen are written as escapes. Control characters with a letter of their own use it; all others give
their code point in hexadecimal between braces.
-/

namespace CodeTree.Quoted

/-- The Hangul fillers: letters that take up a place in a syllable and leave it empty. -/
def isFiller (c : Char) : Bool :=
  c == '\u115f' || c == '\u1160' || c == '\u3164' || c == '\uffa0'

/-- The halfwidth sound marks of katakana: they extend a grapheme, and are seen without one too. -/
def isSoundMark (c : Char) : Bool := c == '\uff9e' || c == '\uff9f'

/-- Whether a character cannot be seen, or only as a part of the character before it. -/
def isHidden (c : Char) : Bool :=
  Unprintable.contains c || isFiller c || (GraphemeExtend.contains c && !isSoundMark c)

def hexDigits (n : Nat) : List Char := Nat.toDigits 16 n

def escape (c : Char) : List Char :=
  if c = '"' then ['\\', '"']
  else if c = '\\' then ['\\', '\\']
  else if c = '\t' then ['\\', 't']
  else if c = '\r' then ['\\', 'r']
  else if c = '\n' then ['\\', 'n']
  else if c = '\x00' then ['\\', '0']
  else if isHidden c then
    ['\\', 'u', '\x7b'] ++ hexDigits c.toNat ++ ['\x7d']
  else [c]

def encode (text : List Char) : List Char := '"' :: (text.flatMap escape ++ ['"'])

def render (text : String) : String := String.ofList (encode text.toList)

example : encode ['a', '\x1b', '"', 'é'] = "\"a\\u\x7b1b\x7d\\\"é\"".toList := by decide +kernel

example : encode ['\u3164', 'ﾞ'] = "\"\\u\x7b3164\x7dﾞ\"".toList := by decide +kernel

end CodeTree.Quoted

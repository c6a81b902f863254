import CodeTree.Json

/-!
# Writing JSON

The compact form has no blanks; the pretty form puts every item and field on a line of its own,
indented by two blanks for each level. Only quotes, backslashes and control characters are escaped.
-/

namespace CodeTree.Json

def hexDigit (n : Nat) : Char := Nat.digitChar n

def escape (c : Char) : List Char :=
  if c = '"' then ['\\', '"']
  else if c = '\\' then ['\\', '\\']
  else if c = '\x08' then ['\\', 'b']
  else if c = '\x0c' then ['\\', 'f']
  else if c = '\n' then ['\\', 'n']
  else if c = '\r' then ['\\', 'r']
  else if c = '\t' then ['\\', 't']
  else if c.toNat < 32 then
    ['\\', 'u', '0', '0', hexDigit (c.toNat / 16), hexDigit (c.toNat % 16)]
  else [c]

def quote (text : String) : List Char := '"' :: (text.toList.flatMap escape ++ ['"'])

def joined (separator : List Char) : List (List Char) → List Char
  | [] => []
  | [text] => text
  | text :: rest => text ++ separator ++ joined separator rest

mutual

def compactChars : Json → List Char
  | .null => "null".toList
  | .bool true => "true".toList
  | .bool false => "false".toList
  | .nat value => Nat.toDigits 10 value
  | .number literal => literal.toList
  | .string text => quote text
  | .array items => ['['] ++ joined [','] (compactItems items) ++ [']']
  | .object fields => ['\x7b'] ++ joined [','] (compactFields fields) ++ ['\x7d']

def compactItems : List Json → List (List Char)
  | [] => []
  | item :: rest => compactChars item :: compactItems rest

def compactFields : List (String × Json) → List (List Char)
  | [] => []
  | (key, value) :: rest => (quote key ++ [':'] ++ compactChars value) :: compactFields rest

end

/-- A line break and the blanks in front of a line at a level. -/
def lineStart (level : Nat) : List Char := '\n' :: List.replicate (2 * level) ' '

/-- The lines of a value between its brackets; without any there is no break either. -/
def bracketed (level : Nat) (first last : Char) (lines : List (List Char)) : List Char :=
  if lines.isEmpty then [first, last]
  else
    [first] ++ lineStart (level + 1) ++ joined (',' :: lineStart (level + 1)) lines ++
      lineStart level ++ [last]

mutual

def prettyChars (level : Nat) : Json → List Char
  | .null => "null".toList
  | .bool true => "true".toList
  | .bool false => "false".toList
  | .nat value => Nat.toDigits 10 value
  | .number literal => literal.toList
  | .string text => quote text
  | .array items => bracketed level '[' ']' (prettyItems (level + 1) items)
  | .object fields => bracketed level '\x7b' '\x7d' (prettyFields (level + 1) fields)

def prettyItems (level : Nat) : List Json → List (List Char)
  | [] => []
  | item :: rest => prettyChars level item :: prettyItems level rest

def prettyFields (level : Nat) : List (String × Json) → List (List Char)
  | [] => []
  | (key, value) :: rest =>
    (quote key ++ [':', ' '] ++ prettyChars level value) :: prettyFields level rest

end

def compact (json : Json) : String := String.ofList (compactChars json)

def pretty (json : Json) : String := String.ofList (prettyChars 0 json)

end CodeTree.Json

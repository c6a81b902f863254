import CodeTree.Json
import CodeTree.Json.Token

/-!
# Reading JSON

A value is read from its tokens by descent. Each step down uses up one unit of a bound that starts
at twice the number of tokens, and no value is nested that deeply.
-/

namespace CodeTree.Json

mutual

/-- Reads one value; gives it and the tokens behind it. -/
def value? : Nat → List Token → Option (Json × List Token)
  | 0, _ => none
  | bound + 1, tokens =>
    match tokens with
    | .null :: rest => some (.null, rest)
    | .bool value :: rest => some (.bool value, rest)
    | .nat value :: rest => some (.nat value, rest)
    | .number literal :: rest => some (.number literal, rest)
    | .string text :: rest => some (.string text, rest)
    | .openBracket :: .closeBracket :: rest => some (.array [], rest)
    | .openBracket :: rest => do
      let (items, after) ← items? bound rest
      return (.array items, after)
    | .openBrace :: .closeBrace :: rest => some (.object [], rest)
    | .openBrace :: rest => do
      let (fields, after) ← fields? bound rest
      return (ofFields fields, after)
    | _ => none

def items? : Nat → List Token → Option (List Json × List Token)
  | 0, _ => none
  | bound + 1, tokens => do
    let (item, rest) ← value? bound tokens
    match rest with
    | .closeBracket :: after => return ([item], after)
    | .comma :: rest =>
      let (items, after) ← items? bound rest
      return (item :: items, after)
    | _ => none

def fields? : Nat → List Token → Option (List (String × Json) × List Token)
  | 0, _ => none
  | bound + 1, tokens =>
    match tokens with
    | .string key :: .colon :: rest => do
      let (value, rest) ← value? bound rest
      match rest with
      | .closeBrace :: after => return ([(key, value)], after)
      | .comma :: rest =>
        let (fields, after) ← fields? bound rest
        return ((key, value) :: fields, after)
      | _ => none
    | _ => none

end

def ofTokens? (tokens : List Token) : Option Json :=
  match value? (2 * tokens.length) tokens with
  | some (value, []) => some value
  | _ => none

def parse? (text : String) : Option Json := (tokens? text.toList).bind ofTokens?

end CodeTree.Json

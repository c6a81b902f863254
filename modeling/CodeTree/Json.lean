/-!
# JSON values

A JSON value. Numbers without sign, fraction and exponent are natural numbers; every other number
keeps its literal. The fields of an object are in the order in which their keys first came, and each
key is there once: a later value replaces an earlier one.
-/

namespace CodeTree

inductive Json where
  | null
  | bool (value : Bool)
  | nat (value : Nat)
  /-- A number with a sign, a fraction or an exponent. -/
  | number (literal : String)
  | string (text : String)
  | array (items : List Json)
  | object (fields : List (String × Json))

namespace Json

def setField (fields : List (String × Json)) (key : String) (value : Json) :
    List (String × Json) :=
  if fields.any (·.1 == key) then
    fields.map fun field => if field.1 == key then (key, value) else field
  else fields ++ [(key, value)]

/-- The object with these fields, of which the last one with a key counts. -/
def ofFields (fields : List (String × Json)) : Json :=
  .object (fields.foldl (fun object field => setField object field.1 field.2) [])

def field? (key : String) : Json → Option Json
  | .object fields => (fields.find? (·.1 == key)).map (·.2)
  | _ => none

def nat? : Json → Option Nat
  | .nat value => some value
  | _ => none

def bool? : Json → Option Bool
  | .bool value => some value
  | _ => none

def string? : Json → Option String
  | .string text => some text
  | _ => none

def array? : Json → Option (List Json)
  | .array items => some items
  | _ => none

def listOf? {α : Type} (read : Json → Option α) (json : Json) : Option (List α) :=
  json.array?.bind (·.mapM read)

end Json

end CodeTree

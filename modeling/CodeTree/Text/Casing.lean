/-!
# Spelling names as words

Names are kept in lower case with underscores between the words. `pascal` gives the other
spelling in use, without separators and with a capital at the head of each word.
-/

namespace CodeTree.Casing

/-- Drops underscores and capitalises the letter after each; `upper` says whether the next
letter heads a word. -/
def pascalChars (upper : Bool) : List Char → List Char
  | [] => []
  | c :: rest =>
    if c = '_' then pascalChars true rest
    else (if upper then c.toUpper else c) :: pascalChars false rest

/-- `return_type` becomes `ReturnType`. -/
def pascal (name : String) : String := String.ofList (pascalChars true name.toList)

/-- Lower case of the ASCII letters; every other character stays as it is. -/
def lower (text : String) : String := String.ofList (text.toList.map Char.toLower)

example : pascal "return_type" = "ReturnType" := by decide

example : lower "Cpp-É" = "cpp-É" := by decide

end CodeTree.Casing

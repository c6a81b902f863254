/-!
# Slash-separated paths

A path is text; its components lie between slashes. Empty components and `.` change nothing, so
`a//b/.` names the same file as `a/b`. The extension of a path is what follows the last dot of
its last component, unless that dot is the component's first character.
-/

namespace CodeTree.Path

/-- The pieces of a list between the occurrences of a separator; one more than there are
separators. -/
def splitOn (sep : Char) : List Char → List (List Char)
  | [] => [[]]
  | c :: rest =>
    if c = sep then [] :: splitOn sep rest
    else
      match splitOn sep rest with
      | [] => [[c]]
      | piece :: pieces => (c :: piece) :: pieces

/-- The components that matter: neither empty nor `.`. -/
def components (path : String) : List String :=
  ((splitOn '/' path.toList).map String.ofList).filter (fun part => part ≠ "" ∧ part ≠ ".")

/-- The last component; a path that ends in `..` has no file name. -/
def fileName? (path : String) : Option String :=
  (components path).getLast?.filter (· ≠ "..")

/-- The part of a file name after its last dot. A leading dot does not count. -/
def extensionOf? (name : String) : Option String :=
  let reversed := name.toList.reverse
  match reversed.dropWhile (· ≠ '.') with
  | [] => none
  | [_] => none
  | _ :: _ :: _ => some (String.ofList (reversed.takeWhile (· ≠ '.')).reverse)

def extension? (path : String) : Option String := (fileName? path).bind extensionOf?

def endsInSlash (path : String) : Bool := path.toList.getLast? == some '/'

def join (path name : String) : String :=
  if endsInSlash path then path ++ name else path ++ "/" ++ name

example : extension? "a.tar/x.TS/." = some "TS" := by decide

example : extension? "dir/.c" = none := by decide

example : extension? "dir/a.c/.." = none := by decide

example : extension? "a." = some "" := by decide

end CodeTree.Path

import CodeTree.Path

/-!
# Trees of files

A snapshot of a directory: files with their bytes, and directories. Paths are resolved against it
the way a file system does: a component that is empty or `.` asks for a directory and stays in it,
and `..` goes back. Of what lies outside the snapshot no more is known than that directories are
there: it counts as one directory without entries, which is its own parent. Files below a directory
are listed in the order of their names, and a directory's files stand where the directory stands.
-/

namespace CodeTree

inductive FileTree where
  | file (bytes : ByteArray)
  | directory (entries : List (String × FileTree))

inductive FileError where
  | notFound
  | notADirectory
  | isADirectory
  | notUtf8
  deriving DecidableEq, Repr

namespace FileError

def message : FileError → String
  | .notFound => "No such file or directory (os error 2)"
  | .notADirectory => "Not a directory (os error 20)"
  | .isADirectory => "Is a directory (os error 21)"
  | .notUtf8 => "stream did not contain valid UTF-8"

end FileError

namespace FileTree

def empty : FileTree := .directory []

def isFile : FileTree → Bool
  | .file _ => true
  | .directory _ => false

def entries : FileTree → List (String × FileTree)
  | .file _ => []
  | .directory entries => entries

def setEntry (entries : List (String × FileTree)) (name : String) (entry : FileTree) :
    List (String × FileTree) :=
  entries.filter (·.1 ≠ name) ++ [(name, entry)]

/-- Puts an entry at a path, given by its components, and makes the directories above it. An empty
directory put where a directory is already changes nothing. -/
def insert : FileTree → List String → FileTree → FileTree
  | .directory entries, [], .directory [] => .directory entries
  | _, [], entry => entry
  | tree, name :: rest, entry =>
    let inner := (tree.entries.lookup name).getD empty
    .directory (setEntry tree.entries name (inner.insert rest entry))

/-- Follows components from a tree; `above` are the directories around it, the nearest first. -/
def follow (above : List FileTree) (tree : FileTree) :
    List String → Except FileError FileTree
  | [] => .ok tree
  | name :: rest =>
    match tree with
    | .file _ => .error .notADirectory
    | .directory entries =>
      if name = "" ∨ name = "." then follow above tree rest
      else if name = ".." then
        match above with
        | [] => follow [] empty rest
        | outer :: above => follow above outer rest
      else
        match entries.lookup name with
        | none => .error .notFound
        | some entry => follow (tree :: above) entry rest

/-- What a path leads to. An absolute path starts outside the tree; the empty path leads nowhere. -/
def resolve (tree : FileTree) (path : String) : Except FileError FileTree :=
  let parts := (Path.splitOn '/' path.toList).map String.ofList
  match path.toList with
  | [] => .error .notFound
  | '/' :: _ => empty.follow [] parts
  | _ => tree.follow [] parts

def read (tree : FileTree) (path : String) : Except FileError String := do
  match ← tree.resolve path with
  | .directory _ => .error .isADirectory
  | .file bytes =>
    match String.fromUTF8? bytes with
    | some text => return text
    | none => .error .notUtf8

def sortByName {α : Type} (pairs : List (String × α)) : List (String × α) :=
  pairs.mergeSort fun a b => !(decide (b.1 < a.1))

mutual

def files : FileTree → List (List String)
  | .file _ => [[]]
  | .directory entries =>
    (sortByName (filesOfEach entries)).flatMap fun (name, paths) => paths.map (name :: ·)

def filesOfEach : List (String × FileTree) → List (String × List (List String))
  | [] => []
  | (name, entry) :: rest => (name, files entry) :: filesOfEach rest

end

end FileTree

end CodeTree

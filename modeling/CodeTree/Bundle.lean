import CodeTree.Concrete.Stored
import CodeTree.Json.Reader
import CodeTree.Parser

/-!
# Bundles

A bundle is a snapshot of a directory together with the concrete trees of its files. As JSON it is
an object with a list of files, each with its path and its source or bytes, and with its language
and concrete tree if it was parsed; it may also list empty directories.
-/

namespace CodeTree

structure Parsed where
  language : Language
  source : String
  tree : Concrete

structure Bundle where
  files : FileTree
  parsed : List Parsed

namespace Bundle

def empty : Bundle := ⟨.empty, []⟩

def parser (bundle : Bundle) : Parser := fun language source =>
  (bundle.parsed.find? fun parsed => parsed.language = language ∧ parsed.source = source).map
    (·.tree)

/-- The bytes of a file: those of its source, or given as numbers. -/
def bytes? (json : Json) : Option ByteArray :=
  match json.field? "source", json.field? "bytes" with
  | some source, _ => source.string?.map String.toUTF8
  | none, some bytes => (Json.listOf? Json.nat? bytes).map fun values =>
    ⟨(values.map Nat.toUInt8).toArray⟩
  | none, none => none

def parsed? (json : Json) : Option Parsed := do
  let language ← (← json.field? "language").string?
  return ⟨← Language.ofName? language, ← (← json.field? "source").string?,
    ← Concrete.ofJson? (← json.field? "cst")⟩

def addFile? (bundle : Bundle) (json : Json) : Option Bundle := do
  let path ← (← json.field? "path").string?
  let bytes ← bytes? json
  return ⟨bundle.files.insert (Path.components path) (.file bytes),
    bundle.parsed ++ (parsed? json).toList⟩

def addDirectory? (bundle : Bundle) (json : Json) : Option Bundle := do
  let path ← json.string?
  return { bundle with files := bundle.files.insert (Path.components path) .empty }

def ofJson? (json : Json) : Option Bundle := do
  let files ← ((json.field? "files").getD (.array [])).array?
  let directories ← ((json.field? "dirs").getD (.array [])).array?
  directories.foldlM addDirectory? (← files.foldlM addFile? empty)

/-- The bundle that a text spells; a blank text is the empty bundle. -/
def ofText? (text : String) : Option Bundle :=
  if Blank.isBlank text then some empty else (Json.parse? text).bind ofJson?

end Bundle

end CodeTree

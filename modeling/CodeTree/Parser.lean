import CodeTree.FileTree
import CodeTree.Concrete.Lowering

/-!
# Parsing files

A parser gives the concrete tree of a source in a language, or gives up. Parsing a file reads it,
calls the parser and lowers what it gives. Syntax errors in the source are no failures: they stay in
the tree.
-/

namespace CodeTree

abbrev Parser := Language → String → Option Concrete

inductive ParseError where
  | undetermined (path : String)
  | unreadable (path : String) (error : FileError)
  | gaveUp (language : Language)
  | notLowered (language : Language) (error : TreeError)
  deriving DecidableEq

namespace ParseError

def message : ParseError → String
  | .undetermined path => "Cannot determine language of " ++ path
  | .unreadable path error => "Failed to read " ++ path ++ ": " ++ error.message
  | .gaveUp language => "Failed to parse " ++ language.name ++ " source"
  | .notLowered language error =>
    "Failed to lower " ++ language.name ++ " syntax tree: " ++ error.message

end ParseError

namespace Parser

variable (parser : Parser) (files : FileTree)

def parse (language : Language) (source : String) (points : Bool) : Except ParseError Tree :=
  match parser language source with
  | none => .error (.gaveUp language)
  | some root => (root.lower language source points).mapError (.notLowered language)

def readText (path : String) : Except ParseError String :=
  (files.read path).mapError (.unreadable path)

def parseFileAs (path : String) (language : Language) (points : Bool) :
    Except ParseError Tree := do
  parser.parse language (← readText files path) points

def parseFile (path : String) (points : Bool) : Except ParseError Tree :=
  match Language.ofPath? path with
  | none => .error (.undetermined path)
  | some language => parser.parseFileAs files path language points

end Parser

end CodeTree

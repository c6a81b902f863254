import CodeTree.CommandLine.Arguments
import CodeTree.Json.Printer
import CodeTree.Parser
import CodeTree.Query.Parts
import CodeTree.Tree.Expression
import CodeTree.Tree.Stored

/-!
# Reports

What is printed about one tree: its s-expression, its stored form, its calls and its functions, as
the switches ask, or one line of summary without any of them. Printing stops at the first failure
and keeps what was printed before.
-/

namespace CodeTree.CommandLine

inductive Failure where
  | pathNotFound
  | unknownLanguage (path : String)
  | nothingToParse (path : String)
  | parse (error : ParseError)
  | roundTripMismatch (path : String)
  | unreadableCall (path : String) (error : QueryError)
  | unreadableFunction (path : String) (error : QueryError)
  | tree (error : TreeError)
  deriving DecidableEq

namespace Failure

def message : Failure → String
  | .pathNotFound => "path not found"
  | .unknownLanguage path =>
    "cannot determine the language of " ++ path ++ ", pass --language"
  | .nothingToParse path => "no source files with a recognized extension under " ++ path
  | .parse error => error.message
  | .roundTripMismatch path => "round-trip mismatch for " ++ path
  | .unreadableCall path error => "Failed to read a call in " ++ path ++ ": " ++ error.message
  | .unreadableFunction path error =>
    "Failed to read a function in " ++ path ++ ": " ++ error.message
  | .tree error => error.message

end Failure

/-- What was printed, and why no more of it was. -/
structure Printed where
  text : String
  failure : Option Failure
  deriving DecidableEq

namespace Printed

def nothing : Printed := ⟨"", none⟩

def line (text : String) : Printed := ⟨text ++ "\n", none⟩

def fail (failure : Failure) : Printed := ⟨"", some failure⟩

/-- Goes on to print unless something failed. -/
def andThen (first second : Printed) : Printed :=
  match first.failure with
  | some _ => first
  | none => ⟨first.text ++ second.text, second.failure⟩

def all (parts : List Printed) : Printed := parts.foldr andThen nothing

def ofExcept (result : Except Failure Printed) : Printed :=
  match result with
  | .ok printed => printed
  | .error failure => .fail failure

end Printed

variable (path : String)

/-- The path and place, a name, and texts in parentheses. -/
def entryLine {tree : Tree} (node : Node tree) (name : String) (texts : List String) : String :=
  path ++ ":" ++ node.location.text ++ ": " ++ name ++ "(" ++ ", ".intercalate texts ++ ")"

def callLine {tree : Tree} (call : CallParts tree) : Except QueryError String := do
  let callee ← call.callee.text
  let arguments ← (call.arguments.mapM Node.text : Except TreeError _)
  return entryLine path call.node callee arguments

def functionLine {tree : Tree} (shape : FunctionParts tree) : Except QueryError String := do
  let parameters ← (shape.parameters.mapM Node.text : Except TreeError _)
  return entryLine path shape.node (shape.name.getD "<anonymous>") parameters

def printCalls (tree : Tree) : Printed :=
  .ofExcept do
    let calls ← tree.calls.mapError .tree
    return .all (calls.map fun read =>
      match read.bind (callLine path) with
      | .ok text => .line text
      | .error error => .fail (.unreadableCall path error))

def printFunctions (tree : Tree) : Printed :=
  .ofExcept do
    let functions ← tree.functions.mapError .tree
    return .all (functions.map fun read =>
      match read.bind (functionLine path) with
      | .ok text => .line text
      | .error error => .fail (.unreadableFunction path error))

def printExpression (tree : Tree) : Printed :=
  .ofExcept <| (do return .line (← (← tree.root).expression) : Except TreeError _).mapError .tree

def printJson (tree : Tree) : Printed := .line tree.toJson.pretty

def printSummary (tree : Tree) : Printed :=
  let errors := tree.allNodes.countP (·.isError)
  .line ("Parsed: " ++ path ++ " (" ++ tree.language.name ++ ", " ++ toString tree.size ++
    " nodes, " ++ toString errors ++ " error nodes)")

/-- Fails unless the leaves of the tree spell the text of its file. -/
def checkRoundTrip (files : FileTree) (tree : Tree) : Printed :=
  .ofExcept do
    let source ← (Parser.readText files path).mapError .parse
    if (← tree.toSource.mapError .tree) = source then return .nothing
    else .error (.roundTripMismatch path)

def printers : List (Switch × (Tree → Printed)) :=
  [(.expression, printExpression), (.json, printJson), (.calls, printCalls path),
    (.functions, printFunctions path)]

def report (options : Options) (files : FileTree) (tree : Tree) : Printed :=
  let chosen := (printers path).filter (options.has ·.1)
  let check :=
    if options.has .checkRoundTrip then checkRoundTrip path files tree else .nothing
  let body :=
    if chosen.isEmpty then printSummary path tree else .all (chosen.map fun entry => entry.2 tree)
  check.andThen body

end CodeTree.CommandLine

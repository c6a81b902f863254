import CodeTree.CommandLine.Report

/-!
# Running the command

A file is parsed in the language given or, without one, in that of its extension. Of a directory,
every file below it with a known extension is parsed, in the order of the walk. The run stops at the
first failure; the exit code is 0 for success, 1 for a failure, and 2 for arguments that make no
sense.
-/

namespace CodeTree.CommandLine

structure Outcome where
  code : UInt32
  output : String
  errors : String
  deriving DecidableEq

def inputs (options : Options) (files : FileTree) :
    Except Failure (List (String × Language)) :=
  match files.resolve options.path with
  | .error _ => .error .pathNotFound
  | .ok (.file _) =>
    match options.language <|> Language.ofPath? options.path with
    | some language => .ok [(options.path, language)]
    | none => .error (.unknownLanguage options.path)
  | .ok (.directory entries) =>
    let paths := (FileTree.directory entries).files.map (·.foldl Path.join options.path)
    let found := paths.filterMap fun path =>
      (Language.ofPath? path).map fun detected => (path, options.language.getD detected)
    if found.isEmpty then .error (.nothingToParse options.path) else .ok found

def process (parser : Parser) (options : Options) (files : FileTree)
    (input : String × Language) : Printed :=
  match parser.parseFileAs files input.1 input.2 (options.has .variationPoints) with
  | .ok tree => report input.1 options files tree
  | .error error => .fail (.parse error)

def printAll (parser : Parser) (options : Options) (files : FileTree) : Printed :=
  .ofExcept do
    return .all ((← inputs options files).map (process parser options files))

def Outcome.ofPrinted (printed : Printed) : Outcome :=
  match printed.failure with
  | none => ⟨0, printed.text, ""⟩
  | some failure => ⟨1, printed.text, "Error: " ++ failure.message ++ "\n"⟩

def versionText : String := "polyglot 0.0.1\n"

def usageText : String := "usage: polyglot [OPTIONS] <PATH>\n"

def Outcome.ofHalt : Halt → Outcome
  | .help => ⟨0, usageText, ""⟩
  | .version => ⟨0, versionText, ""⟩
  | .usage => ⟨2, "", usageText⟩

def run (parser : Parser) (files : FileTree) (arguments : List String) : Outcome :=
  match Options.ofArguments arguments with
  | .error halt => .ofHalt halt
  | .ok options => .ofPrinted (printAll parser options files)

end CodeTree.CommandLine

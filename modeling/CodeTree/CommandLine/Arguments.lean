import CodeTree.Language

/-!
# Command line arguments

The command takes one path, switches that choose what is printed, and a language. Arguments are read
from left to right. The first one that breaks a rule ends the reading as a usage error, and a
request for help or the version ends it as well. A switch or the language may be given once; `-v`
may be repeated and joined with other letters; the value of `-l` may follow in the same argument,
behind an equals sign, or in the next argument, where it may not look like an option. Behind `--`
everything is a path.
-/

namespace CodeTree.CommandLine

/-- The switches without a value. -/
inductive Switch where
  | expression
  | json
  | calls
  | functions
  | checkRoundTrip
  | variationPoints
  deriving DecidableEq, Repr

namespace Switch

def all : List Switch :=
  [.expression, .json, .calls, .functions, .checkRoundTrip, .variationPoints]

def text : Switch → String
  | .expression => "sexp"
  | .json => "json"
  | .calls => "calls"
  | .functions => "functions"
  | .checkRoundTrip => "check-roundtrip"
  | .variationPoints => "variation-points"

def ofText? (text : String) : Option Switch := all.find? (·.text == text)

end Switch

structure Options where
  path : String
  language : Option Language
  switches : List Switch
  /-- How often `-v` was given. -/
  verbosity : Nat
  deriving DecidableEq

namespace Options

def has (options : Options) (switch : Switch) : Bool := options.switches.contains switch

end Options

inductive Halt where
  | help
  | version
  | usage
  deriving DecidableEq, Repr

structure Reading where
  path : Option String
  language : Option Language
  switches : List Switch
  verbosity : Nat
  /-- The next argument is the language. -/
  awaitsLanguage : Bool
  /-- All further arguments are paths. -/
  pathsOnly : Bool
  deriving DecidableEq

namespace Reading

def start : Reading := ⟨none, none, [], 0, false, false⟩

variable (reading : Reading)

def setPath (path : String) : Except Halt Reading :=
  if reading.path.isSome ∨ path = "" then .error .usage
  else .ok { reading with path := some path }

def setLanguage (name : List Char) : Except Halt Reading :=
  match Language.parse? (String.ofList name) with
  | none => .error .usage
  | some language => .ok { reading with language := some language, awaitsLanguage := false }

/-- The option for the language, with its value if that is in the same argument. -/
def languageOption (value : Option (List Char)) : Except Halt Reading :=
  if reading.language.isSome then .error .usage
  else
    match value with
    | some name => reading.setLanguage name
    | none => .ok { reading with awaitsLanguage := true }

def setSwitch (switch : Switch) : Except Halt Reading :=
  if reading.switches.contains switch then .error .usage
  else .ok { reading with switches := reading.switches ++ [switch] }

def long (text : List Char) : Except Halt Reading :=
  let name := String.ofList (text.takeWhile (· ≠ '='))
  let value := (text.dropWhile (· ≠ '=')).tail?
  if name = "language" then reading.languageOption value
  else if value.isSome then .error .usage
  else if name = "help" then .error .help
  else if name = "version" then .error .version
  else if name = "verbose" then .ok { reading with verbosity := reading.verbosity + 1 }
  else
    match Switch.ofText? name with
    | some switch => reading.setSwitch switch
    | none => .error .usage

def short (reading : Reading) : List Char → Except Halt Reading
  | [] => .ok reading
  | 'v' :: rest => { reading with verbosity := reading.verbosity + 1 }.short rest
  | 'V' :: _ => .error .version
  | 'h' :: _ => .error .help
  | ['l'] => reading.languageOption none
  | 'l' :: '=' :: name => reading.languageOption (some name)
  | 'l' :: name => reading.languageOption (some name)
  | _ :: _ => .error .usage

def looksLikeOption : List Char → Bool
  | '-' :: _ :: _ => true
  | _ => false

def step (argument : String) : Except Halt Reading :=
  let text := argument.toList
  if reading.pathsOnly then reading.setPath argument
  else if reading.awaitsLanguage then
    if looksLikeOption text then .error .usage else reading.setLanguage text
  else
    match text with
    | ['-', '-'] => .ok { reading with pathsOnly := true }
    | '-' :: '-' :: name => reading.long name
    | '-' :: letter :: rest => reading.short (letter :: rest)
    | _ => reading.setPath argument

/-- The options, if nothing is missing. -/
def finish : Except Halt Options :=
  match reading.path with
  | some path =>
    if reading.awaitsLanguage then .error .usage
    else .ok ⟨path, reading.language, reading.switches, reading.verbosity⟩
  | none => .error .usage

end Reading

def Options.ofArguments (arguments : List String) : Except Halt Options := do
  (← arguments.foldlM Reading.step Reading.start).finish

end CodeTree.CommandLine

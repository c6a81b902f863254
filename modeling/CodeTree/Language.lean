import CodeTree.Path
import CodeTree.Text.Casing

/-!
# Languages

The dialects whose sources become trees, their names and the file extensions by which they are
recognised. Dialects of one family share most of their grammar.
-/

namespace CodeTree

inductive Language where
  | c | cpp | java | javascript | python | rust | typescript | tsx
  deriving DecidableEq, Repr

/-- Dialects with a common grammar lineage. -/
inductive Family where
  | cxx | java | ecma | python | rust
  deriving DecidableEq, Repr

namespace Family

def title : Family → String
  | .cxx => "Cxx"
  | .java => "Java"
  | .ecma => "Ecma"
  | .python => "Python"
  | .rust => "Rust"

end Family

namespace Language

def all : List Language := [.c, .cpp, .java, .javascript, .python, .rust, .typescript, .tsx]

def name : Language → String
  | .c => "c"
  | .cpp => "cpp"
  | .java => "java"
  | .javascript => "javascript"
  | .python => "python"
  | .rust => "rust"
  | .typescript => "typescript"
  | .tsx => "tsx"

def title : Language → String
  | .c => "C"
  | .cpp => "Cpp"
  | .java => "Java"
  | .javascript => "JavaScript"
  | .python => "Python"
  | .rust => "Rust"
  | .typescript => "TypeScript"
  | .tsx => "Tsx"

def family : Language → Family
  | .c | .cpp => .cxx
  | .java => .java
  | .javascript | .typescript | .tsx => .ecma
  | .python => .python
  | .rust => .rust

def extensions : Language → List String
  | .c => ["c", "h"]
  | .cpp => ["cc", "cpp", "cxx", "hh", "hpp", "hxx"]
  | .java => ["java"]
  | .javascript => ["js", "mjs", "cjs", "jsx"]
  | .python => ["py", "pyi"]
  | .rust => ["rs"]
  | .typescript => ["ts", "mts", "cts"]
  | .tsx => ["tsx"]

/-- The names, besides its own, under which a language may be asked for. -/
def aliases : Language → List String
  | .cpp => ["c++", "cxx"]
  | .javascript => ["js", "ecmascript"]
  | .python => ["py"]
  | .rust => ["rs"]
  | .typescript => ["ts"]
  | _ => []

def ofName? (text : String) : Option Language := all.find? (·.name == text)

def ofTitle? (text : String) : Option Language := all.find? (·.title == text)

/-- The language asked for by a name or an alias, in letters of either case. -/
def parse? (text : String) : Option Language :=
  all.find? fun language => (language.name :: language.aliases).contains (Casing.lower text)

def ofExtension? (ext : String) : Option Language :=
  all.find? (·.extensions.contains (Casing.lower ext))

def ofPath? (path : String) : Option Language := (Path.extension? path).bind ofExtension?

/-- What is said of a text that names no language. -/
def unknownMessage (text : String) : String := "unknown language `" ++ text ++ "`"

theorem mem_all (language : Language) : language ∈ all := by cases language <;> decide

theorem ofName?_name (language : Language) : ofName? language.name = some language := by
  cases language <;> decide

theorem ofTitle?_title (language : Language) : ofTitle? language.title = some language := by
  cases language <;> decide

theorem parse?_name (language : Language) : parse? language.name = some language := by
  cases language <;> decide

end Language

end CodeTree

import CodeTree.Grammar

/-!
# Node kinds

The kind of a node is either a production of one of the grammars or one of eight special kinds,
which belong to every language: tokens that no production names, trivia, and regions that could
not be structured. Both are described by a `Production`, so whatever is said of productions is
said of all kinds.
-/

namespace CodeTree

inductive SpecialKind where
  /-- A token whose production the grammar does not list. -/
  | terminal
  /-- An operator, keyword or punctuation mark. -/
  | terminalSymbol
  /-- Source text kept as it is. -/
  | blot
  | innerWhitespace
  | comment
  /-- Text that could not be structured. -/
  | errorTree
  /-- A region whose children are kept and whose slots are not. -/
  | parseError
  /-- Unstructured text together with attempts to structure it. -/
  | variationPoint
  deriving DecidableEq, Repr

namespace SpecialKind

def all : List SpecialKind :=
  [.terminal, .terminalSymbol, .blot, .innerWhitespace, .comment, .errorTree, .parseError,
    .variationPoint]

def production : SpecialKind → Production
  | .terminal => .leaf "Terminal" "terminal" []
  | .terminalSymbol => .leaf "TerminalSymbol" "terminal_symbol" []
  | .blot => .leaf "Blot" "blot" []
  | .innerWhitespace => .leaf "InnerWhitespace" "inner_whitespace" [.trivia]
  | .comment => .leaf "Comment" "comment" [.trivia]
  | .errorTree => .leaf "ErrorTree" "error_tree" [.error]
  | .parseError => .node "ParseError" "parse_error" [.error] [.remaining .items]
  | .variationPoint => .node "VariationPoint" "variation_point" [.error]
    [.one .raw, .many .alternatives]

theorem mem_all (kind : SpecialKind) : kind ∈ all := by cases kind <;> decide

end SpecialKind

/-- A special kind, or the production at a position of a language's grammar. -/
inductive NodeKind where
  | special (kind : SpecialKind)
  | grammar (language : Language) (index : Fin language.grammar.length)
  deriving DecidableEq

namespace NodeKind

def production : NodeKind → Production
  | .special kind => kind.production
  | .grammar language index => language.grammar[index]

def language? : NodeKind → Option Language
  | .special _ => none
  | .grammar language _ => some language

def name (kind : NodeKind) : String := kind.production.name

/-- The group and the title under which stored trees name a kind. -/
def title (kind : NodeKind) : String × String :=
  match kind with
  | .special _ => ("Special", kind.production.title)
  | .grammar language _ => (language.title, kind.production.title)

def capabilities (kind : NodeKind) : CapabilitySet := kind.production.capabilities

def has (kind : NodeKind) (capability : Capability) : Bool :=
  kind.capabilities.contains capability

def slots (kind : NodeKind) : List SlotDecl := kind.production.slots

/-- Terminal kinds have text and no children. -/
def isTerminal (kind : NodeKind) : Bool := kind.production.terminal

def isTerminalSymbol (kind : NodeKind) : Bool := kind == .special .terminalSymbol

def isTrivia (kind : NodeKind) : Bool := kind.has .trivia

def isError (kind : NodeKind) : Bool := kind.has .error

/-- The kinds that a rest slot takes: neither trivia nor terminal symbols. -/
def isNamed (kind : NodeKind) : Bool := !kind.isTrivia && !kind.isTerminalSymbol

def slot? (kind : NodeKind) (slot : Slot) : Option SlotDecl := kind.slots.find? (·.slot == slot)

def declares (kind : NodeKind) (slot : Slot) : Bool := (kind.slot? slot).isSome

def slotIndex? (kind : NodeKind) (slot : Slot) : Option Nat := SlotDecl.indexOf? kind.slots slot

/-- The slot that collects the children that no other slot takes. -/
def restSlot? (kind : NodeKind) : Option SlotDecl := kind.slots.find? (·.rest)

def restIndex? (kind : NodeKind) : Option Nat := kind.slots.findIdx? (·.rest)

def resolve? (language : Language) (name : String) : Option NodeKind :=
  (language.grammar.findFinIdx? (·.name == name)).map (.grammar language)

def allOf (language : Language) : List NodeKind :=
  (List.finRange language.grammar.length).map (.grammar language)

def all : List NodeKind := Language.all.flatMap allOf ++ SpecialKind.all.map .special

/-- The name of the production, after its language and a colon when it has one. -/
def text (kind : NodeKind) : String :=
  match kind.language? with
  | some language => language.name ++ ":" ++ kind.name
  | none => kind.name

def ofText? (text : String) : Option NodeKind := all.find? (·.text == text)

def ofTitle? (group title : String) : Option NodeKind :=
  if group = "Special" then
    (SpecialKind.all.find? (·.production.title == title)).map .special
  else
    (Language.ofTitle? group).bind fun language =>
      (language.grammar.findFinIdx? (·.title == title)).map (.grammar language)

theorem mem_all (kind : NodeKind) : kind ∈ all := by
  simp only [all, List.mem_append, List.mem_flatMap, List.mem_map]
  cases kind with
  | special kind => exact .inr ⟨kind, kind.mem_all, rfl⟩
  | grammar language index =>
    exact .inl ⟨language, language.mem_all,
      List.mem_map.2 ⟨index, List.mem_finRange index, rfl⟩⟩

end NodeKind

instance : Coe SpecialKind NodeKind := ⟨.special⟩

end CodeTree

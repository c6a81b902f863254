import CodeTree.Kind.Slot

/-!
# Capabilities

A capability says what a node may be used as, whatever its language: a call expression is both an
expression and a call. Each capability requires slots, and a kind that carries the capability
declares them (see `CodeTree.Consistency`). A set of capabilities is a mask with one bit for each.
-/

namespace CodeTree

inductive Capability where
  | module | expression | statement | declaration | block | call | function | conditional
  | loop | binaryOperation | unaryOperation | assignment | returning | jump | literal
  | identifier | parameter | importing | typeDefinition | terminal | trivia | error
  deriving DecidableEq, Repr

namespace Capability

/-- Every capability, in the order in which sets list their members. -/
def all : List Capability :=
  [.module, .expression, .statement, .declaration, .block, .call, .function, .conditional,
    .loop, .binaryOperation, .unaryOperation, .assignment, .returning, .jump, .literal,
    .identifier, .parameter, .importing, .typeDefinition, .terminal, .trivia, .error]

def text : Capability → String
  | .module => "module"
  | .expression => "expression"
  | .statement => "statement"
  | .declaration => "declaration"
  | .block => "block"
  | .call => "call"
  | .function => "function"
  | .conditional => "conditional"
  | .loop => "loop"
  | .binaryOperation => "binary_operation"
  | .unaryOperation => "unary_operation"
  | .assignment => "assignment"
  | .returning => "return"
  | .jump => "jump"
  | .literal => "literal"
  | .identifier => "identifier"
  | .parameter => "parameter"
  | .importing => "import"
  | .typeDefinition => "type_definition"
  | .terminal => "terminal"
  | .trivia => "trivia"
  | .error => "error"

def ofText? (text : String) : Option Capability := all.find? (·.text == text)

def title (capability : Capability) : String := Casing.pascal capability.text

def requiredSlots : Capability → List Slot
  | .module | .block => [.items]
  | .call => [.arguments]
  | .function | .loop => [.body]
  | .conditional => [.condition, .consequence, .alternative]
  | .binaryOperation => [.left, .operator, .right]
  | .unaryOperation => [.operator]
  | .assignment => [.left, .right]
  | _ => []

/-- The bit that stands for the capability in a set. -/
def position (capability : Capability) : Nat := capability.ctorIdx

theorem mem_all (capability : Capability) : capability ∈ all := by cases capability <;> decide

theorem ofText?_text (capability : Capability) : ofText? capability.text = some capability := by
  cases capability <;> decide

theorem position_lt (capability : Capability) : capability.position < 22 := by
  cases capability <;> decide

theorem position_injective {a b : Capability} (h : a.position = b.position) : a = b := by
  cases a <;> cases b <;> first | rfl | exact absurd h (by decide)

end Capability

structure CapabilitySet where
  mask : BitVec 22
  deriving DecidableEq

namespace CapabilitySet

def empty : CapabilitySet := ⟨0⟩

def singleton (capability : Capability) : CapabilitySet :=
  ⟨BitVec.twoPow 22 capability.position⟩

def union (a b : CapabilitySet) : CapabilitySet := ⟨a.mask ||| b.mask⟩

def contains (set : CapabilitySet) (capability : Capability) : Bool :=
  set.mask.getLsbD capability.position

def ofList (capabilities : List Capability) : CapabilitySet :=
  capabilities.foldl (fun set capability => set.union (singleton capability)) empty

def toList (set : CapabilitySet) : List Capability := Capability.all.filter set.contains

def isEmpty (set : CapabilitySet) : Bool := set.mask == 0

/-- The members between braces, as `{Expression, Call}`. -/
def render (set : CapabilitySet) : String :=
  "\x7b" ++ ", ".intercalate (set.toList.map Capability.title) ++ "\x7d"

@[simp] theorem contains_empty (c : Capability) : empty.contains c = false := by
  simp [empty, contains]

@[simp] theorem contains_singleton (a c : Capability) :
    (singleton a).contains c = decide (a = c) := by
  by_cases h : a = c
  · subst h
    simp [singleton, contains, Capability.position_lt]
  · have hne : a.position ≠ c.position := fun e => h (Capability.position_injective e)
    simp [singleton, contains, BitVec.getLsbD_twoPow, hne, h]

@[simp] theorem contains_union (a b : CapabilitySet) (c : Capability) :
    (a.union b).contains c = (a.contains c || b.contains c) := by
  simp [union, contains]

end CapabilitySet

end CodeTree

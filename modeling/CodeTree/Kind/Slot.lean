import CodeTree.Text.Casing

/-!
# Slots

A slot is a named place for children. The same slot names serve every language: the `condition`
of a C `if`, a Python `if` and a Rust `if let` is one slot. A node kind declares the slots it has
in a fixed order, each with an arity, and at most one of them is the rest slot, which collects
the children that no other slot takes.
-/

namespace CodeTree

inductive Slot where
  | alternative | alternatives | argument | arguments | array | attr | body | closeTag
  | condition | consequence | constructor | declaration | declarator | definition | field
  | finalizer | function | handler | increment | index | init | initializer | items | key
  | label | left | macroName | moduleName | name | object | openTag | operand | operator
  | parameter | parameters | path | pattern | property | raw | returnType | right | size
  | source | subscript | superclass | superclasses | trait | type | update | value
  deriving DecidableEq, Repr

namespace Slot

def all : List Slot :=
  [.alternative, .alternatives, .argument, .arguments, .array, .attr, .body, .closeTag,
    .condition, .consequence, .constructor, .declaration, .declarator, .definition, .field,
    .finalizer, .function, .handler, .increment, .index, .init, .initializer, .items, .key,
    .label, .left, .macroName, .moduleName, .name, .object, .openTag, .operand, .operator,
    .parameter, .parameters, .path, .pattern, .property, .raw, .returnType, .right, .size,
    .source, .subscript, .superclass, .superclasses, .trait, .type, .update, .value]

/-- The text of a slot, which is also the field name that fills it from a concrete tree. -/
def text : Slot → String
  | .alternative => "alternative"
  | .alternatives => "alternatives"
  | .argument => "argument"
  | .arguments => "arguments"
  | .array => "array"
  | .attr => "attribute"
  | .body => "body"
  | .closeTag => "close_tag"
  | .condition => "condition"
  | .consequence => "consequence"
  | .constructor => "constructor"
  | .declaration => "declaration"
  | .declarator => "declarator"
  | .definition => "definition"
  | .field => "field"
  | .finalizer => "finalizer"
  | .function => "function"
  | .handler => "handler"
  | .increment => "increment"
  | .index => "index"
  | .init => "init"
  | .initializer => "initializer"
  | .items => "items"
  | .key => "key"
  | .label => "label"
  | .left => "left"
  | .macroName => "macro"
  | .moduleName => "module_name"
  | .name => "name"
  | .object => "object"
  | .openTag => "open_tag"
  | .operand => "operand"
  | .operator => "operator"
  | .parameter => "parameter"
  | .parameters => "parameters"
  | .path => "path"
  | .pattern => "pattern"
  | .property => "property"
  | .raw => "raw"
  | .returnType => "return_type"
  | .right => "right"
  | .size => "size"
  | .source => "source"
  | .subscript => "subscript"
  | .superclass => "superclass"
  | .superclasses => "superclasses"
  | .trait => "trait"
  | .type => "type"
  | .update => "update"
  | .value => "value"

def ofText? (text : String) : Option Slot := all.find? (·.text == text)

def title (slot : Slot) : String := Casing.pascal slot.text

theorem mem_all (slot : Slot) : slot ∈ all := by cases slot <;> decide

theorem ofText?_text (slot : Slot) : ofText? slot.text = some slot := by cases slot <;> decide

theorem text_injective {first second : Slot} (h : first.text = second.text) : first = second := by
  rw [← Option.some.injEq, ← ofText?_text first, h, ofText?_text]

theorem eq_of_ofText? {text : String} {slot : Slot} (h : ofText? text = some slot) :
    slot.text = text := by
  simpa using List.find?_some h

end Slot

inductive Arity where
  | one
  | optional
  | many
  deriving DecidableEq, Repr

namespace Arity

def name : Arity → String
  | .one => "one"
  | .optional => "optional"
  | .many => "many"

/-- Singular slots hold at most one child. -/
def isSingular (arity : Arity) : Bool := arity != .many

def accepts : Arity → Nat → Bool
  | .one, count => count == 1
  | .optional, count => count ≤ 1
  | .many, _ => true

end Arity

/-- One slot of a node kind. The rest slot takes every child that is neither trivia nor a
terminal symbol and is in no other slot. -/
structure SlotDecl where
  slot : Slot
  arity : Arity
  rest : Bool
  deriving DecidableEq, Repr

namespace SlotDecl

def one (slot : Slot) : SlotDecl := ⟨slot, .one, false⟩

def optional (slot : Slot) : SlotDecl := ⟨slot, .optional, false⟩

def many (slot : Slot) : SlotDecl := ⟨slot, .many, false⟩

def remaining (slot : Slot) : SlotDecl := ⟨slot, .many, true⟩

def indexOf? (decls : List SlotDecl) (slot : Slot) : Option Nat :=
  decls.findIdx? (·.slot == slot)

theorem indexOf?_eq_none_iff {decls : List SlotDecl} {slot : Slot} :
    indexOf? decls slot = none ↔ ∀ decl ∈ decls, decl.slot ≠ slot := by
  simp [indexOf?, List.findIdx?_eq_none_iff]

end SlotDecl

end CodeTree

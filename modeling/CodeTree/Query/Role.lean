import CodeTree.Kind

/-!
# Roles

The pieces of a call or a function stand in different slots in each language: the callee of a C call
is its `function`, that of a Java method invocation its `name`, and a C function keeps its name at
the end of a chain of declarators. The role of a kind says where its pieces are.
-/

namespace CodeTree

inductive ListRule where
  /-- The slot holds the elements, or list nodes with the elements as their items. -/
  | items (slot : Slot)
  /-- The slot starts a chain of declarators; the last one with parameters has the list. -/
  | declarator (slot : Slot)
  | absent
  deriving DecidableEq

inductive NameRule where
  /-- The slot holds the name; without it the function is anonymous. -/
  | slot (slot : Slot)
  /-- The slot starts a chain of declarators; the first identifier in it is the name. -/
  | declarator (slot : Slot)
  | anonymous
  deriving DecidableEq

structure CallRule where
  callee : Slot
  arguments : ListRule
  deriving DecidableEq

structure FunctionRule where
  name : NameRule
  /-- The lists whose elements are the parameters, in order. -/
  parameters : List ListRule
  body : Slot
  deriving DecidableEq

inductive Role where
  | call (rule : CallRule)
  | function (rule : FunctionRule)
  | other
  deriving DecidableEq

namespace Role

def callOf (callee : Slot) : Role := .call ⟨callee, .items .arguments⟩

def namedFunction : Role := .function ⟨.slot .name, [.items .parameters], .body⟩

def lambda : Role := .function ⟨.anonymous, [.items .parameters], .body⟩

def declaredFunction : Role :=
  .function ⟨.declarator .declarator, [.declarator .declarator], .body⟩

def declaredLambda : Role := .function ⟨.anonymous, [.declarator .declarator], .body⟩

/-- An arrow function, with one parameter or a list of them. -/
def arrow : Role := .function ⟨.anonymous, [.items .parameter, .items .parameters], .body⟩

def table : Language → List (String × Role)
  | .c => [("call_expression", callOf .function), ("function_definition", declaredFunction)]
  | .cpp =>
    [("call_expression", callOf .function), ("new_expression", callOf .type),
      ("function_definition", declaredFunction), ("lambda_expression", declaredLambda)]
  | .java =>
    [("method_invocation", callOf .name), ("object_creation_expression", callOf .type),
      ("explicit_constructor_invocation", callOf .constructor),
      ("method_declaration", namedFunction), ("constructor_declaration", namedFunction),
      ("lambda_expression", lambda)]
  | .javascript | .typescript | .tsx =>
    [("call_expression", callOf .function), ("new_expression", callOf .constructor),
      ("function_declaration", namedFunction),
      ("generator_function_declaration", namedFunction),
      ("function_expression", namedFunction), ("method_definition", namedFunction),
      ("arrow_function", arrow)]
  | .python =>
    [("call", callOf .function), ("function_definition", namedFunction), ("lambda", lambda)]
  | .rust =>
    [("call_expression", callOf .function), ("function_item", namedFunction),
      ("closure_expression", lambda)]

end Role

/-- The role of a kind; only listed productions have one. -/
def NodeKind.role (kind : NodeKind) : Role :=
  match kind.language? with
  | some language => ((Role.table language).lookup kind.name).getD .other
  | none => .other

end CodeTree

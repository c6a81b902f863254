import CodeTree.Kind.Production

/-!
# Productions of JavaScript, TypeScript and TSX

The three dialects share a base. JavaScript and TSX add the productions of JSX, TypeScript and TSX
those of type declarations.
-/

namespace CodeTree.Grammar

def ecmaShared : List Production := [
  .node "Program" "program" [.module] [.remaining .items],
  .leaf "HashBangLine" "hash_bang_line" [],
  .leaf "Identifier" "identifier" [.expression, .identifier],
  .leaf "PropertyIdentifier" "property_identifier" [.identifier],
  .leaf "PrivatePropertyIdentifier" "private_property_identifier" [.identifier],
  .leaf "ShorthandPropertyIdentifier" "shorthand_property_identifier" [.expression, .identifier],
  .leaf "StatementIdentifier" "statement_identifier" [.identifier],
  .leaf "This" "this" [.expression],
  .leaf "Super" "super" [.expression],
  .leaf "Number" "number" [.expression, .literal],
  .leaf "StringLiteral" "string" [.expression, .literal],
  .leaf "TemplateString" "template_string" [.expression, .literal],
  .leaf "Regex" "regex" [.expression, .literal],
  .leaf "True" "true" [.expression, .literal],
  .leaf "False" "false" [.expression, .literal],
  .leaf "Null" "null" [.expression, .literal],
  .leaf "Undefined" "undefined" [.expression, .literal],
  .node "ImportStatement" "import_statement" [.statement, .importing]
    [.one .source, .remaining .items],
  .node "ExportStatement" "export_statement" [.statement]
    [.optional .declaration, .optional .value, .optional .source, .remaining .items],
  .node "ExpressionStatement" "expression_statement" [.statement] [.remaining .items],
  .node "StatementBlock" "statement_block" [.statement, .block] [.remaining .items],
  .node "LexicalDeclaration" "lexical_declaration" [.statement, .declaration] [.remaining .items],
  .node "VariableDeclaration" "variable_declaration" [.statement, .declaration]
    [.remaining .items],
  .node "VariableDeclarator" "variable_declarator" []
    [.one .name, .optional .type, .optional .value],
  .node "FunctionDeclaration" "function_declaration" [.statement, .declaration, .function]
    [.one .name, .one .parameters, .optional .returnType, .one .body],
  .node "GeneratorFunctionDeclaration" "generator_function_declaration"
    [.statement, .declaration, .function]
    [.one .name, .one .parameters, .optional .returnType, .one .body],
  .node "FunctionExpression" "function_expression" [.expression, .function]
    [.optional .name, .one .parameters, .optional .returnType, .one .body],
  .node "ArrowFunction" "arrow_function" [.expression, .function]
    [.optional .parameter, .optional .parameters, .optional .returnType, .one .body],
  .node "MethodDefinition" "method_definition" [.declaration, .function]
    [.one .name, .one .parameters, .optional .returnType, .one .body],
  .node "FormalParameters" "formal_parameters" [] [.remaining .items],
  .node "AssignmentPattern" "assignment_pattern" [.parameter] [.one .left, .one .right],
  .node "RestPattern" "rest_pattern" [.parameter] [.remaining .items],
  .node "ClassDeclaration" "class_declaration" [.statement, .declaration, .typeDefinition]
    [.one .name, .one .body],
  .node "Class" "class" [.expression, .typeDefinition] [.optional .name, .one .body],
  .node "ClassHeritage" "class_heritage" [] [.remaining .items],
  .node "ClassBody" "class_body" [] [.remaining .items],
  .node "FieldDefinition" "field_definition" [.declaration] [.one .property, .optional .value],
  .node "IfStatement" "if_statement" [.statement, .conditional]
    [.one .condition, .one .consequence, .optional .alternative],
  .node "ElseClause" "else_clause" [] [.remaining .items],
  .node "ForStatement" "for_statement" [.statement, .loop]
    [.optional .initializer, .optional .condition, .optional .increment, .one .body],
  .node "ForInStatement" "for_in_statement" [.statement, .loop]
    [.one .left, .one .operator, .one .right, .one .body],
  .node "WhileStatement" "while_statement" [.statement, .loop] [.one .condition, .one .body],
  .node "DoStatement" "do_statement" [.statement, .loop] [.one .body, .one .condition],
  .node "ReturnStatement" "return_statement" [.statement, .returning] [.remaining .items],
  .node "BreakStatement" "break_statement" [.statement, .jump] [.optional .label],
  .node "ContinueStatement" "continue_statement" [.statement, .jump] [.optional .label],
  .node "ThrowStatement" "throw_statement" [.statement, .jump] [.remaining .items],
  .node "TryStatement" "try_statement" [.statement]
    [.one .body, .optional .handler, .optional .finalizer],
  .node "CatchClause" "catch_clause" [] [.optional .parameter, .one .body],
  .node "FinallyClause" "finally_clause" [] [.one .body],
  .node "SwitchStatement" "switch_statement" [.statement] [.one .value, .one .body],
  .node "SwitchBody" "switch_body" [] [.remaining .items],
  .node "SwitchCase" "switch_case" [] [.one .value, .many .body],
  .node "SwitchDefault" "switch_default" [] [.many .body],
  .node "CallExpression" "call_expression" [.expression, .call] [.one .function, .one .arguments],
  .node "NewExpression" "new_expression" [.expression, .call]
    [.one .constructor, .optional .arguments],
  .node "Arguments" "arguments" [] [.remaining .items],
  .node "MemberExpression" "member_expression" [.expression] [.one .object, .one .property],
  .node "SubscriptExpression" "subscript_expression" [.expression] [.one .object, .one .index],
  .node "BinaryExpression" "binary_expression" [.expression, .binaryOperation]
    [.one .left, .one .operator, .one .right],
  .node "UnaryExpression" "unary_expression" [.expression, .unaryOperation]
    [.one .operator, .one .argument],
  .node "UpdateExpression" "update_expression" [.expression, .unaryOperation]
    [.one .operator, .one .argument],
  .node "AssignmentExpression" "assignment_expression" [.expression, .assignment]
    [.one .left, .one .right],
  .node "AugmentedAssignmentExpression" "augmented_assignment_expression"
    [.expression, .assignment] [.one .left, .one .operator, .one .right],
  .node "TernaryExpression" "ternary_expression" [.expression, .conditional]
    [.one .condition, .one .consequence, .one .alternative],
  .node "AwaitExpression" "await_expression" [.expression] [.remaining .items],
  .node "SpreadElement" "spread_element" [.expression] [.remaining .items],
  .node "ParenthesizedExpression" "parenthesized_expression" [.expression] [.remaining .items],
  .node "SequenceExpression" "sequence_expression" [.expression] [.remaining .items],
  .node "Object" "object" [.expression] [.remaining .items],
  .node "Pair" "pair" [] [.one .key, .one .value],
  .node "Array" "array" [.expression] [.remaining .items]]

def jsx : List Production := [
  .node "JsxElement" "jsx_element" [.expression]
    [.one .openTag, .one .closeTag, .remaining .items],
  .node "JsxSelfClosingElement" "jsx_self_closing_element" [.expression]
    [.optional .name, .many .attr],
  .node "JsxOpeningElement" "jsx_opening_element" [] [.optional .name, .many .attr],
  .node "JsxClosingElement" "jsx_closing_element" [] [.optional .name],
  .node "JsxExpression" "jsx_expression" [.expression] [.remaining .items],
  .node "JsxAttribute" "jsx_attribute" [] [.remaining .items],
  .leaf "JsxText" "jsx_text" [.literal],
  .leaf "NestedIdentifier" "nested_identifier" [.identifier]]

def typed : List Production := [
  .leaf "TypeIdentifier" "type_identifier" [.identifier],
  .leaf "PredefinedType" "predefined_type" [],
  .leaf "TypeAnnotation" "type_annotation" [],
  .leaf "InterfaceBody" "interface_body" [],
  .leaf "EnumBody" "enum_body" [],
  .leaf "AccessibilityModifier" "accessibility_modifier" [],
  .node "InterfaceDeclaration" "interface_declaration" [.statement, .declaration, .typeDefinition]
    [.one .name, .one .body],
  .node "TypeAliasDeclaration" "type_alias_declaration"
    [.statement, .declaration, .typeDefinition] [.one .name, .one .value],
  .node "EnumDeclaration" "enum_declaration" [.statement, .declaration, .typeDefinition]
    [.one .name, .one .body],
  .node "AbstractClassDeclaration" "abstract_class_declaration"
    [.statement, .declaration, .typeDefinition] [.one .name, .one .body],
  .node "RequiredParameter" "required_parameter" [.parameter]
    [.one .pattern, .optional .type, .optional .value],
  .node "OptionalParameter" "optional_parameter" [.parameter]
    [.one .pattern, .optional .type, .optional .value],
  .node "FunctionSignature" "function_signature" [.statement, .declaration]
    [.one .name, .one .parameters, .optional .returnType],
  .node "MethodSignature" "method_signature" [.declaration]
    [.one .name, .one .parameters, .optional .returnType],
  .node "AbstractMethodSignature" "abstract_method_signature" [.declaration]
    [.one .name, .one .parameters, .optional .returnType],
  .node "PublicFieldDefinition" "public_field_definition" [.declaration]
    [.one .name, .optional .type, .optional .value],
  .node "AsExpression" "as_expression" [.expression] [.remaining .items],
  .node "NonNullExpression" "non_null_expression" [.expression] [.remaining .items]]

def javascript : List Production := ecmaShared ++ jsx

def typescript : List Production := ecmaShared ++ typed

def tsx : List Production := ecmaShared ++ jsx ++ typed

end CodeTree.Grammar

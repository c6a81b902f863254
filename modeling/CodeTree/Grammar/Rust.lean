import CodeTree.Kind.Production

/-!
# Productions of Rust

Types, attributes and token trees are leaves; control flow consists of expressions.
-/

namespace CodeTree.Grammar

def rust : List Production := [
  .node "SourceFile" "source_file" [.module] [.remaining .items],
  .leaf "Identifier" "identifier" [.expression, .identifier],
  .leaf "FieldIdentifier" "field_identifier" [.identifier],
  .leaf "TypeIdentifier" "type_identifier" [.identifier],
  .leaf "ScopedIdentifier" "scoped_identifier" [.expression, .identifier],
  .leaf "ScopedTypeIdentifier" "scoped_type_identifier" [.identifier],
  .leaf "PrimitiveType" "primitive_type" [],
  .leaf "GenericType" "generic_type" [],
  .leaf "ReferenceType" "reference_type" [],
  .leaf "IntegerLiteral" "integer_literal" [.expression, .literal],
  .leaf "FloatLiteral" "float_literal" [.expression, .literal],
  .leaf "StringLiteral" "string_literal" [.expression, .literal],
  .leaf "RawStringLiteral" "raw_string_literal" [.expression, .literal],
  .leaf "CharLiteral" "char_literal" [.expression, .literal],
  .leaf "BooleanLiteral" "boolean_literal" [.expression, .literal],
  .leaf "UnitExpression" "unit_expression" [.expression, .literal],
  .leaf "SelfValue" "self" [.expression, .identifier],
  .leaf "MutableSpecifier" "mutable_specifier" [],
  .leaf "VisibilityModifier" "visibility_modifier" [],
  .leaf "Lifetime" "lifetime" [],
  .leaf "Label" "label" [],
  .leaf "TokenTree" "token_tree" [],
  .leaf "AttributeItem" "attribute_item" [],
  .leaf "InnerAttributeItem" "inner_attribute_item" [],
  .leaf "SelfParameter" "self_parameter" [.parameter],
  .node "UseDeclaration" "use_declaration" [.declaration, .importing] [.one .argument],
  .node "ModItem" "mod_item" [.declaration] [.one .name, .optional .body],
  .node "FunctionItem" "function_item" [.declaration, .function]
    [.one .name, .one .parameters, .optional .returnType, .one .body],
  .node "FunctionSignatureItem" "function_signature_item" [.declaration]
    [.one .name, .one .parameters, .optional .returnType],
  .node "Parameters" "parameters" [] [.remaining .items],
  .node "Parameter" "parameter" [.parameter] [.one .pattern, .one .type],
  .node "ClosureExpression" "closure_expression" [.expression, .function]
    [.one .parameters, .optional .returnType, .one .body],
  .node "ClosureParameters" "closure_parameters" [] [.remaining .items],
  .node "StructItem" "struct_item" [.declaration, .typeDefinition] [.one .name, .optional .body],
  .node "EnumItem" "enum_item" [.declaration, .typeDefinition] [.one .name, .one .body],
  .node "EnumVariantList" "enum_variant_list" [] [.remaining .items],
  .node "EnumVariant" "enum_variant" [.declaration]
    [.one .name, .optional .body, .optional .value],
  .node "ImplItem" "impl_item" [.declaration] [.optional .trait, .one .type, .optional .body],
  .node "TraitItem" "trait_item" [.declaration, .typeDefinition] [.one .name, .one .body],
  .node "TypeItem" "type_item" [.declaration, .typeDefinition] [.one .name, .one .type],
  .node "ConstItem" "const_item" [.declaration] [.one .name, .one .type, .optional .value],
  .node "StaticItem" "static_item" [.declaration] [.one .name, .one .type, .optional .value],
  .node "DeclarationList" "declaration_list" [] [.remaining .items],
  .node "FieldDeclarationList" "field_declaration_list" [] [.remaining .items],
  .node "OrderedFieldDeclarationList" "ordered_field_declaration_list" []
    [.many .type, .remaining .items],
  .node "FieldDeclaration" "field_declaration" [.declaration] [.one .name, .one .type],
  .node "Block" "block" [.expression, .block] [.remaining .items],
  .node "ExpressionStatement" "expression_statement" [.statement] [.remaining .items],
  .node "LetDeclaration" "let_declaration" [.statement, .declaration]
    [.one .pattern, .optional .type, .optional .value, .optional .alternative],
  .node "IfExpression" "if_expression" [.expression, .conditional]
    [.one .condition, .one .consequence, .optional .alternative],
  .node "ElseClause" "else_clause" [] [.remaining .items],
  .node "LetCondition" "let_condition" [] [.one .pattern, .one .value],
  .node "LetChain" "let_chain" [] [.remaining .items],
  .node "WhileExpression" "while_expression" [.expression, .loop] [.one .condition, .one .body],
  .node "LoopExpression" "loop_expression" [.expression, .loop] [.one .body],
  .node "ForExpression" "for_expression" [.expression, .loop]
    [.one .pattern, .one .value, .one .body],
  .node "MatchExpression" "match_expression" [.expression] [.one .value, .one .body],
  .node "MatchBlock" "match_block" [] [.remaining .items],
  .node "MatchArm" "match_arm" [] [.one .pattern, .one .value],
  .node "MatchPattern" "match_pattern" [] [.optional .condition, .remaining .items],
  .node "ReturnExpression" "return_expression" [.expression, .returning] [.remaining .items],
  .node "BreakExpression" "break_expression" [.expression, .jump] [.remaining .items],
  .node "ContinueExpression" "continue_expression" [.expression, .jump] [.remaining .items],
  .node "CallExpression" "call_expression" [.expression, .call] [.one .function, .one .arguments],
  .node "Arguments" "arguments" [] [.remaining .items],
  .node "MacroInvocation" "macro_invocation" [.expression] [.one .macroName, .remaining .items],
  .node "FieldExpression" "field_expression" [.expression] [.one .value, .one .field],
  .node "IndexExpression" "index_expression" [.expression] [.remaining .items],
  .node "BinaryExpression" "binary_expression" [.expression, .binaryOperation]
    [.one .left, .one .operator, .one .right],
  .node "UnaryExpression" "unary_expression" [.expression] [.remaining .items],
  .node "ReferenceExpression" "reference_expression" [.expression] [.one .value],
  .node "AssignmentExpression" "assignment_expression" [.expression, .assignment]
    [.one .left, .one .right],
  .node "CompoundAssignmentExpr" "compound_assignment_expr" [.expression, .assignment]
    [.one .left, .one .operator, .one .right],
  .node "TryExpression" "try_expression" [.expression] [.remaining .items],
  .node "AwaitExpression" "await_expression" [.expression] [.remaining .items],
  .node "RangeExpression" "range_expression" [.expression] [.remaining .items],
  .node "ParenthesizedExpression" "parenthesized_expression" [.expression] [.remaining .items],
  .node "TupleExpression" "tuple_expression" [.expression] [.remaining .items],
  .node "ArrayExpression" "array_expression" [.expression] [.remaining .items],
  .node "StructExpression" "struct_expression" [.expression] [.one .name, .one .body],
  .node "FieldInitializerList" "field_initializer_list" [] [.remaining .items]]

end CodeTree.Grammar

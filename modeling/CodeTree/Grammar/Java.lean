import CodeTree.Kind.Production

/-!
# Productions of Java

Types, literals and modifiers are leaves; methods, constructors and lambdas are functions.
-/

namespace CodeTree.Grammar

def java : List Production := [
  .node "Program" "program" [.module] [.remaining .items],
  .leaf "Identifier" "identifier" [.expression, .identifier],
  .leaf "TypeIdentifier" "type_identifier" [.identifier],
  .leaf "ScopedIdentifier" "scoped_identifier" [.expression, .identifier],
  .leaf "ScopedTypeIdentifier" "scoped_type_identifier" [.identifier],
  .leaf "IntegralType" "integral_type" [],
  .leaf "FloatingPointType" "floating_point_type" [],
  .leaf "BooleanType" "boolean_type" [],
  .leaf "VoidType" "void_type" [],
  .leaf "GenericType" "generic_type" [],
  .leaf "ArrayType" "array_type" [],
  .leaf "Modifiers" "modifiers" [],
  .leaf "Dimensions" "dimensions" [],
  .leaf "DecimalIntegerLiteral" "decimal_integer_literal" [.expression, .literal],
  .leaf "HexIntegerLiteral" "hex_integer_literal" [.expression, .literal],
  .leaf "DecimalFloatingPointLiteral" "decimal_floating_point_literal" [.expression, .literal],
  .leaf "StringLiteral" "string_literal" [.expression, .literal],
  .leaf "CharacterLiteral" "character_literal" [.expression, .literal],
  .leaf "True" "true" [.expression, .literal],
  .leaf "False" "false" [.expression, .literal],
  .leaf "NullLiteral" "null_literal" [.expression, .literal],
  .leaf "This" "this" [.expression],
  .leaf "Super" "super" [.expression],
  .node "PackageDeclaration" "package_declaration" [.declaration] [.remaining .items],
  .node "ImportDeclaration" "import_declaration" [.importing] [.remaining .items],
  .node "ClassDeclaration" "class_declaration" [.statement, .declaration, .typeDefinition]
    [.one .name, .optional .superclass, .one .body],
  .node "Superclass" "superclass" [] [.remaining .items],
  .node "InterfaceDeclaration" "interface_declaration" [.declaration, .typeDefinition]
    [.one .name, .one .body],
  .node "EnumDeclaration" "enum_declaration" [.declaration, .typeDefinition]
    [.one .name, .one .body],
  .node "EnumBody" "enum_body" [] [.remaining .items],
  .node "EnumConstant" "enum_constant" [.declaration]
    [.one .name, .optional .arguments, .optional .body],
  .node "ClassBody" "class_body" [] [.remaining .items],
  .node "InterfaceBody" "interface_body" [] [.remaining .items],
  .node "FieldDeclaration" "field_declaration" [.declaration] [.one .type, .many .declarator],
  .node "VariableDeclarator" "variable_declarator" [] [.one .name, .optional .value],
  .node "LocalVariableDeclaration" "local_variable_declaration" [.statement, .declaration]
    [.one .type, .many .declarator],
  .node "MethodDeclaration" "method_declaration" [.declaration, .function]
    [.one .name, .one .parameters, .one .type, .optional .body],
  .node "ConstructorDeclaration" "constructor_declaration" [.declaration, .function]
    [.one .name, .one .parameters, .one .body],
  .node "ConstructorBody" "constructor_body" [.block] [.remaining .items],
  .node "FormalParameters" "formal_parameters" [] [.remaining .items],
  .node "FormalParameter" "formal_parameter" [.parameter] [.one .type, .one .name],
  .node "SpreadParameter" "spread_parameter" [.parameter] [.remaining .items],
  .node "InferredParameters" "inferred_parameters" [] [.remaining .items],
  .node "LambdaExpression" "lambda_expression" [.expression, .function]
    [.one .parameters, .one .body],
  .node "Block" "block" [.statement, .block] [.remaining .items],
  .node "ExpressionStatement" "expression_statement" [.statement] [.remaining .items],
  .node "IfStatement" "if_statement" [.statement, .conditional]
    [.one .condition, .one .consequence, .optional .alternative],
  .node "WhileStatement" "while_statement" [.statement, .loop] [.one .condition, .one .body],
  .node "DoStatement" "do_statement" [.statement, .loop] [.one .body, .one .condition],
  .node "ForStatement" "for_statement" [.statement, .loop]
    [.many .init, .optional .condition, .many .update, .one .body],
  .node "EnhancedForStatement" "enhanced_for_statement" [.statement, .loop]
    [.one .type, .one .name, .one .value, .one .body],
  .node "ReturnStatement" "return_statement" [.statement, .returning] [.remaining .items],
  .node "BreakStatement" "break_statement" [.statement, .jump] [],
  .node "ContinueStatement" "continue_statement" [.statement, .jump] [],
  .node "ThrowStatement" "throw_statement" [.statement, .jump] [.remaining .items],
  .node "TryStatement" "try_statement" [.statement] [.one .body, .remaining .items],
  .node "CatchClause" "catch_clause" [] [.one .body, .remaining .items],
  .node "FinallyClause" "finally_clause" [] [.remaining .items],
  .node "MethodInvocation" "method_invocation" [.expression, .call]
    [.optional .object, .one .name, .one .arguments],
  .node "ObjectCreationExpression" "object_creation_expression" [.expression, .call]
    [.one .type, .one .arguments],
  .node "ExplicitConstructorInvocation" "explicit_constructor_invocation" [.statement, .call]
    [.optional .object, .one .constructor, .one .arguments],
  .node "ArgumentList" "argument_list" [] [.remaining .items],
  .node "BinaryExpression" "binary_expression" [.expression, .binaryOperation]
    [.one .left, .one .operator, .one .right],
  .node "UnaryExpression" "unary_expression" [.expression, .unaryOperation]
    [.one .operator, .one .operand],
  .node "UpdateExpression" "update_expression" [.expression] [.remaining .items],
  .node "AssignmentExpression" "assignment_expression" [.expression, .assignment]
    [.one .left, .one .operator, .one .right],
  .node "FieldAccess" "field_access" [.expression] [.one .object, .one .field],
  .node "ArrayAccess" "array_access" [.expression] [.one .array, .one .index],
  .node "TernaryExpression" "ternary_expression" [.expression, .conditional]
    [.one .condition, .one .consequence, .one .alternative],
  .node "CastExpression" "cast_expression" [.expression] [.one .type, .one .value],
  .node "InstanceofExpression" "instanceof_expression" [.expression]
    [.one .left, .one .right, .optional .name],
  .node "ParenthesizedExpression" "parenthesized_expression" [.expression] [.remaining .items]]

end CodeTree.Grammar

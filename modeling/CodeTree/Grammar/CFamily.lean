import CodeTree.Kind.Production

/-!
# Productions of C and C++

Both dialects start with the same productions; each then adds its own. A C++ function may be
defined as `= default` or `= delete`, so only there is its body optional.
-/

namespace CodeTree.Grammar

def cShared : List Production := [
  .node "TranslationUnit" "translation_unit" [.module] [.remaining .items],
  .leaf "Identifier" "identifier" [.expression, .identifier],
  .leaf "FieldIdentifier" "field_identifier" [.identifier],
  .leaf "TypeIdentifier" "type_identifier" [.identifier],
  .leaf "StatementIdentifier" "statement_identifier" [.identifier],
  .leaf "PrimitiveType" "primitive_type" [],
  .leaf "SizedTypeSpecifier" "sized_type_specifier" [],
  .leaf "TypeQualifier" "type_qualifier" [],
  .leaf "StorageClassSpecifier" "storage_class_specifier" [],
  .leaf "NumberLiteral" "number_literal" [.expression, .literal],
  .leaf "StringLiteral" "string_literal" [.expression, .literal],
  .leaf "CharLiteral" "char_literal" [.expression, .literal],
  .leaf "ConcatenatedString" "concatenated_string" [.expression, .literal],
  .leaf "SystemLibString" "system_lib_string" [.literal],
  .leaf "True" "true" [.expression, .literal],
  .leaf "False" "false" [.expression, .literal],
  .leaf "Null" "null" [.expression, .literal],
  .leaf "PreprocArg" "preproc_arg" [],
  .node "PreprocInclude" "preproc_include" [.statement, .importing] [.one .path],
  .node "PreprocDef" "preproc_def" [.statement, .declaration] [.one .name, .optional .value],
  .node "PreprocIfdef" "preproc_ifdef" [.statement]
    [.one .name, .optional .alternative, .remaining .items],
  .node "PreprocIf" "preproc_if" [.statement]
    [.one .condition, .optional .alternative, .remaining .items],
  .node "PreprocElif" "preproc_elif" []
    [.one .condition, .optional .alternative, .remaining .items],
  .node "PreprocElse" "preproc_else" [] [.remaining .items],
  .node "Declaration" "declaration" [.statement, .declaration]
    [.optional .type, .many .declarator],
  .node "InitDeclarator" "init_declarator" [] [.one .declarator, .one .value],
  .node "FunctionDeclarator" "function_declarator" [] [.one .declarator, .one .parameters],
  .node "PointerDeclarator" "pointer_declarator" [] [.one .declarator],
  .node "ParenthesizedDeclarator" "parenthesized_declarator" [] [.remaining .declarator],
  .node "ArrayDeclarator" "array_declarator" [] [.one .declarator, .optional .size],
  .node "ParameterList" "parameter_list" [] [.remaining .items],
  .node "ParameterDeclaration" "parameter_declaration" [.parameter]
    [.one .type, .optional .declarator],
  .node "TypeDescriptor" "type_descriptor" [] [.one .type, .optional .declarator],
  .node "InitializerList" "initializer_list" [.expression] [.remaining .items],
  .node "CompoundStatement" "compound_statement" [.statement, .block] [.remaining .items],
  .node "ExpressionStatement" "expression_statement" [.statement] [.remaining .items],
  .node "IfStatement" "if_statement" [.statement, .conditional]
    [.one .condition, .one .consequence, .optional .alternative],
  .node "ElseClause" "else_clause" [] [.remaining .items],
  .node "WhileStatement" "while_statement" [.statement, .loop] [.one .condition, .one .body],
  .node "DoStatement" "do_statement" [.statement, .loop] [.one .body, .one .condition],
  .node "ForStatement" "for_statement" [.statement, .loop]
    [.optional .initializer, .optional .condition, .optional .update, .one .body],
  .node "ReturnStatement" "return_statement" [.statement, .returning] [.remaining .items],
  .node "BreakStatement" "break_statement" [.statement, .jump] [],
  .node "ContinueStatement" "continue_statement" [.statement, .jump] [],
  .node "GotoStatement" "goto_statement" [.statement, .jump] [.one .label],
  .node "LabeledStatement" "labeled_statement" [.statement] [.one .label, .remaining .items],
  .node "SwitchStatement" "switch_statement" [.statement] [.one .condition, .one .body],
  .node "CaseStatement" "case_statement" [.statement] [.optional .value, .remaining .items],
  .node "CallExpression" "call_expression" [.expression, .call] [.one .function, .one .arguments],
  .node "ArgumentList" "argument_list" [] [.remaining .items],
  .node "BinaryExpression" "binary_expression" [.expression, .binaryOperation]
    [.one .left, .one .operator, .one .right],
  .node "UnaryExpression" "unary_expression" [.expression, .unaryOperation]
    [.one .operator, .one .argument],
  .node "UpdateExpression" "update_expression" [.expression, .unaryOperation]
    [.one .operator, .one .argument],
  .node "PointerExpression" "pointer_expression" [.expression, .unaryOperation]
    [.one .operator, .one .argument],
  .node "AssignmentExpression" "assignment_expression" [.expression, .assignment]
    [.one .left, .one .operator, .one .right],
  .node "ParenthesizedExpression" "parenthesized_expression" [.expression] [.remaining .items],
  .node "FieldExpression" "field_expression" [.expression]
    [.one .argument, .one .operator, .one .field],
  .node "SubscriptExpression" "subscript_expression" [.expression]
    [.one .argument, .optional .index],
  .node "ConditionalExpression" "conditional_expression" [.expression, .conditional]
    [.one .condition, .optional .consequence, .one .alternative],
  .node "CastExpression" "cast_expression" [.expression] [.one .type, .one .value],
  .node "SizeofExpression" "sizeof_expression" [.expression] [.optional .value, .optional .type],
  .node "CommaExpression" "comma_expression" [.expression] [.one .left, .one .right],
  .node "StructSpecifier" "struct_specifier" [.typeDefinition] [.optional .name, .optional .body],
  .node "UnionSpecifier" "union_specifier" [.typeDefinition] [.optional .name, .optional .body],
  .node "FieldDeclarationList" "field_declaration_list" [] [.remaining .items],
  .node "FieldDeclaration" "field_declaration" [.declaration]
    [.optional .type, .many .declarator],
  .node "EnumSpecifier" "enum_specifier" [.typeDefinition] [.optional .name, .optional .body],
  .node "EnumeratorList" "enumerator_list" [] [.remaining .items],
  .node "Enumerator" "enumerator" [.declaration] [.one .name, .optional .value],
  .node "TypeDefinition" "type_definition" [.declaration, .typeDefinition]
    [.one .type, .many .declarator]]

def cOnly : List Production := [
  .node "FunctionDefinition" "function_definition" [.declaration, .function]
    [.optional .type, .one .declarator, .one .body]]

/-- What C++ adds: namespaces, classes, templates and lambdas. -/
def cppOnly : List Production := [
  .leaf "NamespaceIdentifier" "namespace_identifier" [.identifier],
  .leaf "QualifiedIdentifier" "qualified_identifier" [.expression, .identifier],
  .leaf "DestructorName" "destructor_name" [.identifier],
  .leaf "OperatorName" "operator_name" [.identifier],
  .leaf "This" "this" [.expression],
  .leaf "Nullptr" "nullptr" [.expression, .literal],
  .leaf "RawStringLiteral" "raw_string_literal" [.expression, .literal],
  .leaf "AccessSpecifier" "access_specifier" [],
  .leaf "TemplateType" "template_type" [],
  .leaf "PlaceholderTypeSpecifier" "placeholder_type_specifier" [],
  .leaf "DefaultMethodClause" "default_method_clause" [],
  .leaf "DeleteMethodClause" "delete_method_clause" [],
  .node "FunctionDefinition" "function_definition" [.declaration, .function]
    [.optional .type, .one .declarator, .optional .body],
  .node "NamespaceDefinition" "namespace_definition" [.declaration] [.optional .name, .one .body],
  .node "DeclarationList" "declaration_list" [.block] [.remaining .items],
  .node "ClassSpecifier" "class_specifier" [.typeDefinition] [.optional .name, .optional .body],
  .node "TemplateDeclaration" "template_declaration" [.declaration]
    [.one .parameters, .remaining .items],
  .node "TemplateParameterList" "template_parameter_list" [] [.remaining .items],
  .node "LambdaExpression" "lambda_expression" [.expression, .function]
    [.optional .declarator, .one .body],
  .node "AbstractFunctionDeclarator" "abstract_function_declarator" [] [.one .parameters],
  .node "ForRangeLoop" "for_range_loop" [.statement, .loop]
    [.optional .initializer, .one .type, .one .declarator, .one .right, .one .body],
  .node "ConditionClause" "condition_clause" [] [.optional .initializer, .one .value],
  .node "NewExpression" "new_expression" [.expression, .call]
    [.one .type, .optional .declarator, .optional .arguments],
  .node "DeleteExpression" "delete_expression" [.expression] [.remaining .items],
  .node "ThrowStatement" "throw_statement" [.statement, .jump] [.remaining .items],
  .node "TryStatement" "try_statement" [.statement] [.one .body, .remaining .items],
  .node "CatchClause" "catch_clause" [] [.one .parameters, .one .body]]

def c : List Production := cShared ++ cOnly

def cpp : List Production := cShared ++ cppOnly

end CodeTree.Grammar

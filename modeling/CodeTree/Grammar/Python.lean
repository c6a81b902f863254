import CodeTree.Kind.Production

/-!
# Productions of Python

Literals and dotted names are leaves; a definition under decorators keeps them as items.
-/

namespace CodeTree.Grammar

def python : List Production := [
  .node "Module" "module" [.module] [.remaining .items],
  .leaf "Identifier" "identifier" [.expression, .identifier],
  .leaf "DottedName" "dotted_name" [.identifier],
  .leaf "Integer" "integer" [.expression, .literal],
  .leaf "Float" "float" [.expression, .literal],
  .leaf "StringLiteral" "string" [.expression, .literal],
  .leaf "ConcatenatedString" "concatenated_string" [.expression, .literal],
  .leaf "True" "true" [.expression, .literal],
  .leaf "False" "false" [.expression, .literal],
  .leaf "NoneLiteral" "none" [.expression, .literal],
  .leaf "Ellipsis" "ellipsis" [.expression, .literal],
  .leaf "TypeExpression" "type" [],
  .node "ImportStatement" "import_statement" [.statement, .importing] [.many .name],
  .node "ImportFromStatement" "import_from_statement" [.statement, .importing]
    [.one .moduleName, .many .name],
  .node "AliasedImport" "aliased_import" [] [.one .name],
  .node "ExpressionStatement" "expression_statement" [.statement] [.remaining .items],
  .node "FunctionDefinition" "function_definition" [.statement, .declaration, .function]
    [.one .name, .one .parameters, .optional .returnType, .one .body],
  .node "DecoratedDefinition" "decorated_definition" [.statement, .declaration]
    [.one .definition, .remaining .items],
  .node "Decorator" "decorator" [] [.remaining .items],
  .node "ClassDefinition" "class_definition" [.statement, .declaration, .typeDefinition]
    [.one .name, .optional .superclasses, .one .body],
  .node "Parameters" "parameters" [] [.remaining .items],
  .node "LambdaParameters" "lambda_parameters" [] [.remaining .items],
  .node "DefaultParameter" "default_parameter" [.parameter] [.one .name, .one .value],
  .node "TypedParameter" "typed_parameter" [.parameter] [.one .type, .remaining .items],
  .node "TypedDefaultParameter" "typed_default_parameter" [.parameter]
    [.one .name, .one .type, .one .value],
  .node "ListSplatPattern" "list_splat_pattern" [.parameter] [.remaining .items],
  .node "DictionarySplatPattern" "dictionary_splat_pattern" [.parameter] [.remaining .items],
  .node "Lambda" "lambda" [.expression, .function] [.optional .parameters, .one .body],
  .node "Block" "block" [.block] [.remaining .items],
  .node "IfStatement" "if_statement" [.statement, .conditional]
    [.one .condition, .one .consequence, .many .alternative],
  .node "ElifClause" "elif_clause" [] [.one .condition, .one .consequence],
  .node "ElseClause" "else_clause" [] [.one .body],
  .node "ForStatement" "for_statement" [.statement, .loop]
    [.one .left, .one .right, .one .body, .optional .alternative],
  .node "WhileStatement" "while_statement" [.statement, .loop]
    [.one .condition, .one .body, .optional .alternative],
  .node "TryStatement" "try_statement" [.statement] [.one .body, .remaining .items],
  .node "ExceptClause" "except_clause" [] [.remaining .items],
  .node "FinallyClause" "finally_clause" [] [.remaining .items],
  .node "WithStatement" "with_statement" [.statement] [.one .body, .remaining .items],
  .node "ReturnStatement" "return_statement" [.statement, .returning] [.remaining .items],
  .node "PassStatement" "pass_statement" [.statement] [],
  .node "BreakStatement" "break_statement" [.statement, .jump] [],
  .node "ContinueStatement" "continue_statement" [.statement, .jump] [],
  .node "RaiseStatement" "raise_statement" [.statement, .jump] [.remaining .items],
  .node "Call" "call" [.expression, .call] [.one .function, .one .arguments],
  .node "ArgumentList" "argument_list" [] [.remaining .items],
  .node "KeywordArgument" "keyword_argument" [] [.one .name, .one .value],
  .node "GeneratorExpression" "generator_expression" [.expression] [.one .body],
  .node "Attribute" "attribute" [.expression] [.one .object, .one .attr],
  .node "Subscript" "subscript" [.expression] [.one .value, .many .subscript],
  .node "BinaryOperator" "binary_operator" [.expression, .binaryOperation]
    [.one .left, .one .operator, .one .right],
  .node "BooleanOperator" "boolean_operator" [.expression, .binaryOperation]
    [.one .left, .one .operator, .one .right],
  .node "UnaryOperator" "unary_operator" [.expression, .unaryOperation]
    [.one .operator, .one .argument],
  .node "NotOperator" "not_operator" [.expression] [.one .argument],
  .node "ComparisonOperator" "comparison_operator" [.expression] [.remaining .items],
  .node "Assignment" "assignment" [.expression, .assignment]
    [.one .left, .optional .right, .optional .type],
  .node "AugmentedAssignment" "augmented_assignment" [.expression, .assignment]
    [.one .left, .one .operator, .one .right],
  .node "ConditionalExpression" "conditional_expression" [.expression] [.remaining .items],
  .node "Await" "await" [.expression] [.remaining .items],
  .node "ParenthesizedExpression" "parenthesized_expression" [.expression] [.remaining .items],
  .node "List" "list" [.expression] [.remaining .items],
  .node "Tuple" "tuple" [.expression] [.remaining .items],
  .node "Set" "set" [.expression] [.remaining .items],
  .node "Dictionary" "dictionary" [.expression] [.remaining .items],
  .node "Pair" "pair" [] [.one .key, .one .value]]

end CodeTree.Grammar

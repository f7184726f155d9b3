/-!
# Tree.Kind — the kinds of node and their slots

Every node has a kind, and the kind fixes how many slots the node has, what each is called and what it may hold
(`NodeKind.schema`).  The table is the grammar of trees: names, types, declarations, class members, signatures,
statements and expressions.
-/
namespace Downlevel

/-- What a slot may hold. -/
inductive SlotShape where
  | token
  | optionalToken
  | node
  | optionalNode
  | list
  | separatedList
  deriving DecidableEq, Repr

namespace SlotShape

/-- The slot may be empty. -/
def isOptional : SlotShape → Bool
  | optionalToken => true
  | optionalNode => true
  | _ => false

def name : SlotShape → String
  | token => "Token"
  | optionalToken => "OptionalToken"
  | node => "Node"
  | optionalNode => "OptionalNode"
  | list => "List"
  | separatedList => "SeparatedList"

end SlotShape

/-- The kinds of node. -/
inductive NodeKind where
  | sourceUnit | identifierName | qualifiedName | typeClause | predefinedType | arrayType | objectType
  | functionType | constructorType | propertySignature | methodSignature | indexSignature | callSignatureMember
  | constructSignature | interfaceDeclaration | extendsClause | implementsClause | functionDeclaration
  | moduleDeclaration | classDeclaration | enumDeclaration | enumElement | constructorDeclaration
  | memberFunctionDeclaration | memberVariableDeclaration | getMemberAccessorDeclaration
  | setMemberAccessorDeclaration | callSignature | parameterList | parameter | variableStatement
  | variableDeclaration | variableDeclarator | equalsValueClause | block | expressionStatement
  | returnStatement | ifStatement | elseClause | emptyStatement | whileStatement | doStatement | forStatement
  | forInStatement | breakStatement | continueStatement | throwStatement | tryStatement | catchClause
  | finallyClause | switchStatement | caseSwitchClause | defaultSwitchClause | labeledStatement
  | debuggerStatement | withStatement | literalExpression | thisExpression | superExpression
  | parenthesizedExpression | binaryExpression | conditionalExpression | prefixUnaryExpression
  | postfixUnaryExpression | memberAccessExpression | elementAccessExpression | invocationExpression
  | argumentList | objectCreationExpression | arrayLiteralExpression | objectLiteralExpression
  | simplePropertyAssignment | getAccessorPropertyAssignment | setAccessorPropertyAssignment
  | functionExpression | simpleArrowFunctionExpression | parenthesizedArrowFunctionExpression | castExpression
  | omittedExpression
  deriving DecidableEq, Repr

namespace NodeKind

/-- All kinds, in their order. -/
def all : List NodeKind := [
  .sourceUnit, .identifierName, .qualifiedName, .typeClause, .predefinedType, .arrayType, .objectType,
  .functionType, .constructorType, .propertySignature, .methodSignature, .indexSignature, .callSignatureMember,
  .constructSignature, .interfaceDeclaration, .extendsClause, .implementsClause, .functionDeclaration,
  .moduleDeclaration, .classDeclaration, .enumDeclaration, .enumElement, .constructorDeclaration,
  .memberFunctionDeclaration, .memberVariableDeclaration, .getMemberAccessorDeclaration,
  .setMemberAccessorDeclaration, .callSignature, .parameterList, .parameter, .variableStatement,
  .variableDeclaration, .variableDeclarator, .equalsValueClause, .block, .expressionStatement,
  .returnStatement, .ifStatement, .elseClause, .emptyStatement, .whileStatement, .doStatement, .forStatement,
  .forInStatement, .breakStatement, .continueStatement, .throwStatement, .tryStatement, .catchClause,
  .finallyClause, .switchStatement, .caseSwitchClause, .defaultSwitchClause, .labeledStatement,
  .debuggerStatement, .withStatement, .literalExpression, .thisExpression, .superExpression,
  .parenthesizedExpression, .binaryExpression, .conditionalExpression, .prefixUnaryExpression,
  .postfixUnaryExpression, .memberAccessExpression, .elementAccessExpression, .invocationExpression,
  .argumentList, .objectCreationExpression, .arrayLiteralExpression, .objectLiteralExpression,
  .simplePropertyAssignment, .getAccessorPropertyAssignment, .setAccessorPropertyAssignment,
  .functionExpression, .simpleArrowFunctionExpression, .parenthesizedArrowFunctionExpression, .castExpression,
  .omittedExpression]

def name : NodeKind → String
  | sourceUnit => "SourceUnit"
  | identifierName => "IdentifierName"
  | qualifiedName => "QualifiedName"
  | typeClause => "TypeAnnotation"
  | predefinedType => "PredefinedType"
  | arrayType => "ArrayType"
  | objectType => "ObjectType"
  | functionType => "FunctionType"
  | constructorType => "ConstructorType"
  | propertySignature => "PropertySignature"
  | methodSignature => "MethodSignature"
  | indexSignature => "IndexSignature"
  | callSignatureMember => "CallSignatureMember"
  | constructSignature => "ConstructSignature"
  | interfaceDeclaration => "InterfaceDeclaration"
  | extendsClause => "ExtendsClause"
  | implementsClause => "ImplementsClause"
  | functionDeclaration => "FunctionDeclaration"
  | moduleDeclaration => "ModuleDeclaration"
  | classDeclaration => "ClassDeclaration"
  | enumDeclaration => "EnumDeclaration"
  | enumElement => "EnumElement"
  | constructorDeclaration => "ConstructorDeclaration"
  | memberFunctionDeclaration => "MemberFunctionDeclaration"
  | memberVariableDeclaration => "MemberVariableDeclaration"
  | getMemberAccessorDeclaration => "GetMemberAccessorDeclaration"
  | setMemberAccessorDeclaration => "SetMemberAccessorDeclaration"
  | callSignature => "CallSignature"
  | parameterList => "ParameterList"
  | parameter => "Parameter"
  | variableStatement => "VariableStatement"
  | variableDeclaration => "VariableDeclaration"
  | variableDeclarator => "VariableDeclarator"
  | equalsValueClause => "EqualsValueClause"
  | block => "Block"
  | expressionStatement => "ExpressionStatement"
  | returnStatement => "ReturnStatement"
  | ifStatement => "IfStatement"
  | elseClause => "ElseClause"
  | emptyStatement => "EmptyStatement"
  | whileStatement => "WhileStatement"
  | doStatement => "DoStatement"
  | forStatement => "ForStatement"
  | forInStatement => "ForInStatement"
  | breakStatement => "BreakStatement"
  | continueStatement => "ContinueStatement"
  | throwStatement => "ThrowStatement"
  | tryStatement => "TryStatement"
  | catchClause => "CatchClause"
  | finallyClause => "FinallyClause"
  | switchStatement => "SwitchStatement"
  | caseSwitchClause => "CaseSwitchClause"
  | defaultSwitchClause => "DefaultSwitchClause"
  | labeledStatement => "LabeledStatement"
  | debuggerStatement => "DebuggerStatement"
  | withStatement => "WithStatement"
  | literalExpression => "LiteralExpression"
  | thisExpression => "ThisExpression"
  | superExpression => "SuperExpression"
  | parenthesizedExpression => "ParenthesizedExpression"
  | binaryExpression => "BinaryExpression"
  | conditionalExpression => "ConditionalExpression"
  | prefixUnaryExpression => "PrefixUnaryExpression"
  | postfixUnaryExpression => "PostfixUnaryExpression"
  | memberAccessExpression => "MemberAccessExpression"
  | elementAccessExpression => "ElementAccessExpression"
  | invocationExpression => "InvocationExpression"
  | argumentList => "ArgumentList"
  | objectCreationExpression => "ObjectCreationExpression"
  | arrayLiteralExpression => "ArrayLiteralExpression"
  | objectLiteralExpression => "ObjectLiteralExpression"
  | simplePropertyAssignment => "SimplePropertyAssignment"
  | getAccessorPropertyAssignment => "GetAccessorPropertyAssignment"
  | setAccessorPropertyAssignment => "SetAccessorPropertyAssignment"
  | functionExpression => "FunctionExpression"
  | simpleArrowFunctionExpression => "SimpleArrowFunctionExpression"
  | parenthesizedArrowFunctionExpression => "ParenthesizedArrowFunctionExpression"
  | castExpression => "CastExpression"
  | omittedExpression => "OmittedExpression"

/-- The slots of a kind in document order: what each is called and what it may hold. -/
def schema : NodeKind → List (String × SlotShape)
  | sourceUnit => [("module_elements", .list), ("end_of_file_token", .token)]
  | identifierName => [("identifier", .token)]
  | qualifiedName => [("left", .node), ("dot_token", .token), ("right", .token)]
  | typeClause => [("colon_token", .token), ("type_node", .node)]
  | predefinedType => [("keyword", .token)]
  | arrayType => [("element_type", .node), ("open_bracket_token", .token), ("close_bracket_token", .token)]
  | objectType => [("open_brace_token", .token), ("type_members", .list), ("close_brace_token", .token)]
  | functionType => [("parameter_list", .node), ("equals_greater_than_token", .token), ("type_node", .node)]
  | constructorType => [
      ("new_keyword", .token), ("parameter_list", .node), ("equals_greater_than_token", .token),
      ("type_node", .node)]
  | propertySignature => [
      ("property_name", .token), ("question_token", .optionalToken), ("type_annotation", .optionalNode),
      ("separator_token", .optionalToken)]
  | methodSignature => [
      ("property_name", .token), ("question_token", .optionalToken), ("call_signature", .node),
      ("separator_token", .optionalToken)]
  | indexSignature => [
      ("open_bracket_token", .token), ("parameter", .node), ("close_bracket_token", .token),
      ("type_annotation", .optionalNode), ("separator_token", .optionalToken)]
  | callSignatureMember => [("call_signature", .node), ("separator_token", .optionalToken)]
  | constructSignature => [("new_keyword", .token), ("call_signature", .node), ("separator_token", .optionalToken)]
  | interfaceDeclaration => [
      ("export_keyword", .optionalToken), ("interface_keyword", .token), ("identifier", .token),
      ("extends_clause", .optionalNode), ("body", .node)]
  | extendsClause => [("extends_keyword", .token), ("type_names", .separatedList)]
  | implementsClause => [("implements_keyword", .token), ("type_names", .separatedList)]
  | functionDeclaration => [
      ("export_keyword", .optionalToken), ("declare_keyword", .optionalToken), ("function_keyword", .token),
      ("identifier", .token), ("call_signature", .node), ("block", .optionalNode),
      ("semicolon_token", .optionalToken)]
  | moduleDeclaration => [
      ("export_keyword", .optionalToken), ("declare_keyword", .optionalToken), ("module_keyword", .token),
      ("name", .node), ("open_brace_token", .token), ("module_elements", .list), ("close_brace_token", .token)]
  | classDeclaration => [
      ("export_keyword", .optionalToken), ("declare_keyword", .optionalToken), ("class_keyword", .token),
      ("identifier", .token), ("extends_clause", .optionalNode), ("implements_clause", .optionalNode),
      ("open_brace_token", .token), ("class_elements", .list), ("close_brace_token", .token)]
  | enumDeclaration => [
      ("export_keyword", .optionalToken), ("declare_keyword", .optionalToken), ("enum_keyword", .token),
      ("identifier", .token), ("open_brace_token", .token), ("enum_elements", .separatedList),
      ("close_brace_token", .token)]
  | enumElement => [("property_name", .token), ("equals_value_clause", .optionalNode)]
  | constructorDeclaration => [
      ("constructor_keyword", .token), ("parameter_list", .node), ("block", .optionalNode),
      ("semicolon_token", .optionalToken)]
  | memberFunctionDeclaration => [
      ("public_or_private_keyword", .optionalToken), ("static_keyword", .optionalToken), ("property_name", .token),
      ("call_signature", .node), ("block", .optionalNode), ("semicolon_token", .optionalToken)]
  | memberVariableDeclaration => [
      ("public_or_private_keyword", .optionalToken), ("static_keyword", .optionalToken),
      ("variable_declarator", .node), ("semicolon_token", .token)]
  | getMemberAccessorDeclaration => [
      ("public_or_private_keyword", .optionalToken), ("static_keyword", .optionalToken), ("get_keyword", .token),
      ("property_name", .token), ("parameter_list", .node), ("type_annotation", .optionalNode), ("block", .node)]
  | setMemberAccessorDeclaration => [
      ("public_or_private_keyword", .optionalToken), ("static_keyword", .optionalToken), ("set_keyword", .token),
      ("property_name", .token), ("parameter_list", .node), ("block", .node)]
  | callSignature => [("parameter_list", .node), ("type_annotation", .optionalNode)]
  | parameterList => [("open_paren_token", .token), ("parameters", .separatedList), ("close_paren_token", .token)]
  | parameter => [
      ("dot_dot_dot_token", .optionalToken), ("public_or_private_keyword", .optionalToken), ("identifier", .token),
      ("question_token", .optionalToken), ("type_annotation", .optionalNode), ("equals_value_clause", .optionalNode)]
  | variableStatement => [
      ("export_keyword", .optionalToken), ("declare_keyword", .optionalToken), ("variable_declaration", .node),
      ("semicolon_token", .token)]
  | variableDeclaration => [("var_keyword", .token), ("variable_declarators", .separatedList)]
  | variableDeclarator => [
      ("identifier", .token), ("type_annotation", .optionalNode), ("equals_value_clause", .optionalNode)]
  | equalsValueClause => [("equals_token", .token), ("value", .node)]
  | block => [("open_brace_token", .token), ("statements", .list), ("close_brace_token", .token)]
  | expressionStatement => [("expression", .node), ("semicolon_token", .token)]
  | returnStatement => [("return_keyword", .token), ("expression", .optionalNode), ("semicolon_token", .token)]
  | ifStatement => [
      ("if_keyword", .token), ("open_paren_token", .token), ("condition", .node), ("close_paren_token", .token),
      ("statement", .node), ("else_clause", .optionalNode)]
  | elseClause => [("else_keyword", .token), ("statement", .node)]
  | emptyStatement => [("semicolon_token", .token)]
  | whileStatement => [
      ("while_keyword", .token), ("open_paren_token", .token), ("condition", .node), ("close_paren_token", .token),
      ("statement", .node)]
  | doStatement => [
      ("do_keyword", .token), ("statement", .node), ("while_keyword", .token), ("open_paren_token", .token),
      ("condition", .node), ("close_paren_token", .token), ("semicolon_token", .token)]
  | forStatement => [
      ("for_keyword", .token), ("open_paren_token", .token), ("variable_declaration", .optionalNode),
      ("initializer", .optionalNode), ("first_semicolon_token", .token), ("condition", .optionalNode),
      ("second_semicolon_token", .token), ("incrementor", .optionalNode), ("close_paren_token", .token),
      ("statement", .node)]
  | forInStatement => [
      ("for_keyword", .token), ("open_paren_token", .token), ("variable_declaration", .optionalNode),
      ("left", .optionalNode), ("in_keyword", .token), ("expression", .node), ("close_paren_token", .token),
      ("statement", .node)]
  | breakStatement => [("break_keyword", .token), ("identifier", .optionalToken), ("semicolon_token", .token)]
  | continueStatement => [("continue_keyword", .token), ("identifier", .optionalToken), ("semicolon_token", .token)]
  | throwStatement => [("throw_keyword", .token), ("expression", .node), ("semicolon_token", .token)]
  | tryStatement => [
      ("try_keyword", .token), ("block", .node), ("catch_clause", .optionalNode), ("finally_clause", .optionalNode)]
  | catchClause => [
      ("catch_keyword", .token), ("open_paren_token", .token), ("identifier", .token), ("close_paren_token", .token),
      ("block", .node)]
  | finallyClause => [("finally_keyword", .token), ("block", .node)]
  | switchStatement => [
      ("switch_keyword", .token), ("open_paren_token", .token), ("expression", .node), ("close_paren_token", .token),
      ("open_brace_token", .token), ("switch_clauses", .list), ("close_brace_token", .token)]
  | caseSwitchClause => [
      ("case_keyword", .token), ("expression", .node), ("colon_token", .token), ("statements", .list)]
  | defaultSwitchClause => [("default_keyword", .token), ("colon_token", .token), ("statements", .list)]
  | labeledStatement => [("identifier", .token), ("colon_token", .token), ("statement", .node)]
  | debuggerStatement => [("debugger_keyword", .token), ("semicolon_token", .token)]
  | withStatement => [
      ("with_keyword", .token), ("open_paren_token", .token), ("condition", .node), ("close_paren_token", .token),
      ("statement", .node)]
  | literalExpression => [("literal_token", .token)]
  | thisExpression => [("this_keyword", .token)]
  | superExpression => [("super_keyword", .token)]
  | parenthesizedExpression => [("open_paren_token", .token), ("expression", .node), ("close_paren_token", .token)]
  | binaryExpression => [("left", .node), ("operator_token", .token), ("right", .node)]
  | conditionalExpression => [
      ("condition", .node), ("question_token", .token), ("when_true", .node), ("colon_token", .token),
      ("when_false", .node)]
  | prefixUnaryExpression => [("operator_token", .token), ("operand", .node)]
  | postfixUnaryExpression => [("operand", .node), ("operator_token", .token)]
  | memberAccessExpression => [("expression", .node), ("dot_token", .token), ("name", .token)]
  | elementAccessExpression => [
      ("expression", .node), ("open_bracket_token", .token), ("argument_expression", .node),
      ("close_bracket_token", .token)]
  | invocationExpression => [("expression", .node), ("argument_list", .node)]
  | argumentList => [("open_paren_token", .token), ("arguments", .separatedList), ("close_paren_token", .token)]
  | objectCreationExpression => [("new_keyword", .token), ("expression", .node), ("argument_list", .optionalNode)]
  | arrayLiteralExpression => [
      ("open_bracket_token", .token), ("expressions", .separatedList), ("close_bracket_token", .token)]
  | objectLiteralExpression => [
      ("open_brace_token", .token), ("property_assignments", .separatedList), ("close_brace_token", .token)]
  | simplePropertyAssignment => [("property_name", .token), ("colon_token", .token), ("expression", .node)]
  | getAccessorPropertyAssignment => [
      ("get_keyword", .token), ("property_name", .token), ("open_paren_token", .token),
      ("close_paren_token", .token), ("type_annotation", .optionalNode), ("block", .node)]
  | setAccessorPropertyAssignment => [
      ("set_keyword", .token), ("property_name", .token), ("open_paren_token", .token), ("parameter", .node),
      ("close_paren_token", .token), ("block", .node)]
  | functionExpression => [
      ("function_keyword", .token), ("identifier", .optionalToken), ("call_signature", .node), ("block", .node)]
  | simpleArrowFunctionExpression => [("identifier", .token), ("equals_greater_than_token", .token), ("body", .node)]
  | parenthesizedArrowFunctionExpression => [
      ("call_signature", .node), ("equals_greater_than_token", .token), ("body", .node)]
  | castExpression => [
      ("less_than_token", .token), ("type_node", .node), ("greater_than_token", .token), ("expression", .node)]
  | omittedExpression => []

/-- What each slot of a kind may hold. -/
def shapes (k : NodeKind) : List SlotShape := k.schema.map Prod.snd

def ofName? (name : String) : Option NodeKind := all.find? (fun k => k.name == name)

/-- The number of kinds before this one. -/
def rank (k : NodeKind) : Nat := all.idxOf k

/-- A node that says something about types and nothing else. -/
def isType : NodeKind → Bool
  | typeClause | predefinedType | arrayType | objectType | functionType | constructorType => true
  | propertySignature | methodSignature | indexSignature | callSignatureMember | constructSignature => true
  | interfaceDeclaration => true
  | _ => false

/-- A function that takes `this` from around it. -/
def isArrowFunction : NodeKind → Bool
  | simpleArrowFunctionExpression | parenthesizedArrowFunctionExpression => true
  | _ => false

/-- A function that has a `this` of its own. -/
def isFunctionLike : NodeKind → Bool
  | functionDeclaration | functionExpression | constructorDeclaration | memberFunctionDeclaration => true
  | getMemberAccessorDeclaration | setMemberAccessorDeclaration => true
  | getAccessorPropertyAssignment | setAccessorPropertyAssignment => true
  | _ => false

end NodeKind

end Downlevel

import Downlevel.Tree.Supply
/-!
# Tree.View — nodes read by the names of their slots

For each kind of node that lowering reads there is a structure with one field to a slot.  `view?` reads a node of the
kind, and `toNode` makes a new node of a view; a node made of a view reads as that view (`view?_mk_toSlots`).
-/
namespace Downlevel

/-- Members and the separators between them. -/
structure SeparatedNodes where
  members : List Node
  separators : List Token

@[simp] theorem Slot.token?_ofToken? (t : Option Token) : (Slot.ofToken? t).token? = t := by cases t <;> rfl

@[simp] theorem Slot.node?_ofNode? (n : Option Node) : (Slot.ofNode? n).node? = n := by cases n <;> rfl

/-- A structure that names the slots of a kind of node. -/
class NodeView (α : Type) where
  kind : NodeKind
  ofSlots? : List Slot → Option α
  toSlots : α → List Slot
  ofSlots?_toSlots : ∀ view, ofSlots? (toSlots view) = some view := by intro view; simp

/-- The view of a node of the kind; none for a node of another kind. -/
def Node.view? (α : Type) [NodeView α] (n : Node) : Option α :=
  if n.kind = NodeView.kind α then NodeView.ofSlots? n.slots else none

theorem Node.view?_mk_toSlots {α : Type} [NodeView α] (id : ObjectId) (view : α) :
    (Node.mk id (NodeView.kind α) (NodeView.toSlots view)).view? α = some view := by
  simp [Node.view?, Node.kind, Node.slots, NodeView.ofSlots?_toSlots]

/-- A new node with the slots of a view. -/
def NodeView.toNode {α : Type} [NodeView α] (view : α) : Fresh Node :=
  Node.fresh (NodeView.kind α) (NodeView.toSlots view)

/-- A whole program. -/
structure SourceUnit where
  elements : List Node
  endOfFile : Token

instance : NodeView SourceUnit where
  kind := .sourceUnit
  ofSlots?
    | [.list elements, .token endOfFile] =>
      some ⟨elements, endOfFile⟩
    | _ => none
  toSlots v := [.list v.elements, .token v.endOfFile]

/-- A function with a name. -/
structure FunctionDeclaration where
  exported : Option Token
  declared : Option Token
  keyword : Token
  name : Token
  signature : Node
  block : Option Node
  semicolon : Option Token

instance : NodeView FunctionDeclaration where
  kind := .functionDeclaration
  ofSlots?
    | [exported, declared, .token keyword, .token name, .node signature, block, semicolon] =>
      some ⟨exported.token?, declared.token?, keyword, name, signature, block.node?, semicolon.token?⟩
    | _ => none
  toSlots v := [.ofToken? v.exported, .ofToken? v.declared, .token v.keyword, .token v.name, .node v.signature,
    .ofNode? v.block, .ofToken? v.semicolon]

/-- A namespace. -/
structure ModuleDeclaration where
  exported : Option Token
  declared : Option Token
  keyword : Token
  name : Node
  openBrace : Token
  elements : List Node
  closeBrace : Token

instance : NodeView ModuleDeclaration where
  kind := .moduleDeclaration
  ofSlots?
    | [exported, declared, .token keyword, .node name, .token openBrace, .list elements, .token closeBrace] =>
      some ⟨exported.token?, declared.token?, keyword, name, openBrace, elements, closeBrace⟩
    | _ => none
  toSlots v := [.ofToken? v.exported, .ofToken? v.declared, .token v.keyword, .node v.name, .token v.openBrace,
    .list v.elements, .token v.closeBrace]

/-- A class. -/
structure ClassDeclaration where
  exported : Option Token
  declared : Option Token
  keyword : Token
  name : Token
  base : Option Node
  implemented : Option Node
  openBrace : Token
  members : List Node
  closeBrace : Token

instance : NodeView ClassDeclaration where
  kind := .classDeclaration
  ofSlots?
    | [exported, declared, .token keyword, .token name, base, implemented, .token openBrace, .list members,
      .token closeBrace] =>
      some ⟨exported.token?, declared.token?, keyword, name, base.node?, implemented.node?, openBrace, members,
        closeBrace⟩
    | _ => none
  toSlots v := [.ofToken? v.exported, .ofToken? v.declared, .token v.keyword, .token v.name, .ofNode? v.base,
    .ofNode? v.implemented, .token v.openBrace, .list v.members, .token v.closeBrace]

/-- An enum. -/
structure EnumDeclaration where
  exported : Option Token
  declared : Option Token
  keyword : Token
  name : Token
  openBrace : Token
  members : SeparatedNodes
  closeBrace : Token

instance : NodeView EnumDeclaration where
  kind := .enumDeclaration
  ofSlots?
    | [exported, declared, .token keyword, .token name, .token openBrace, .separated members membersSeparators,
      .token closeBrace] =>
      some ⟨exported.token?, declared.token?, keyword, name, openBrace, ⟨members, membersSeparators⟩, closeBrace⟩
    | _ => none
  toSlots v := [.ofToken? v.exported, .ofToken? v.declared, .token v.keyword, .token v.name, .token v.openBrace,
    .separated v.members.members v.members.separators, .token v.closeBrace]

/-- A member of an enum. -/
structure EnumElement where
  name : Token
  value : Option Node

instance : NodeView EnumElement where
  kind := .enumElement
  ofSlots?
    | [.token name, value] =>
      some ⟨name, value.node?⟩
    | _ => none
  toSlots v := [.token v.name, .ofNode? v.value]

/-- The bases of a class or interface. -/
structure ExtendsClause where
  keyword : Token
  names : SeparatedNodes

instance : NodeView ExtendsClause where
  kind := .extendsClause
  ofSlots?
    | [.token keyword, .separated names namesSeparators] =>
      some ⟨keyword, ⟨names, namesSeparators⟩⟩
    | _ => none
  toSlots v := [.token v.keyword, .separated v.names.members v.names.separators]

/-- A constructor. -/
structure ConstructorDeclaration where
  keyword : Token
  parameters : Node
  block : Option Node
  semicolon : Option Token

instance : NodeView ConstructorDeclaration where
  kind := .constructorDeclaration
  ofSlots?
    | [.token keyword, .node parameters, block, semicolon] =>
      some ⟨keyword, parameters, block.node?, semicolon.token?⟩
    | _ => none
  toSlots v := [.token v.keyword, .node v.parameters, .ofNode? v.block, .ofToken? v.semicolon]

/-- A method. -/
structure MemberFunction where
  access : Option Token
  isStatic : Option Token
  name : Token
  signature : Node
  block : Option Node
  semicolon : Option Token

instance : NodeView MemberFunction where
  kind := .memberFunctionDeclaration
  ofSlots?
    | [access, isStatic, .token name, .node signature, block, semicolon] =>
      some ⟨access.token?, isStatic.token?, name, signature, block.node?, semicolon.token?⟩
    | _ => none
  toSlots v := [.ofToken? v.access, .ofToken? v.isStatic, .token v.name, .node v.signature, .ofNode? v.block,
    .ofToken? v.semicolon]

/-- A field. -/
structure MemberVariable where
  access : Option Token
  isStatic : Option Token
  declarator : Node
  semicolon : Token

instance : NodeView MemberVariable where
  kind := .memberVariableDeclaration
  ofSlots?
    | [access, isStatic, .node declarator, .token semicolon] =>
      some ⟨access.token?, isStatic.token?, declarator, semicolon⟩
    | _ => none
  toSlots v := [.ofToken? v.access, .ofToken? v.isStatic, .node v.declarator, .token v.semicolon]

/-- A getter of a class. -/
structure MemberGetter where
  access : Option Token
  isStatic : Option Token
  keyword : Token
  name : Token
  parameters : Node
  resultType : Option Node
  block : Node

instance : NodeView MemberGetter where
  kind := .getMemberAccessorDeclaration
  ofSlots?
    | [access, isStatic, .token keyword, .token name, .node parameters, resultType, .node block] =>
      some ⟨access.token?, isStatic.token?, keyword, name, parameters, resultType.node?, block⟩
    | _ => none
  toSlots v := [.ofToken? v.access, .ofToken? v.isStatic, .token v.keyword, .token v.name, .node v.parameters,
    .ofNode? v.resultType, .node v.block]

/-- A setter of a class. -/
structure MemberSetter where
  access : Option Token
  isStatic : Option Token
  keyword : Token
  name : Token
  parameters : Node
  block : Node

instance : NodeView MemberSetter where
  kind := .setMemberAccessorDeclaration
  ofSlots?
    | [access, isStatic, .token keyword, .token name, .node parameters, .node block] =>
      some ⟨access.token?, isStatic.token?, keyword, name, parameters, block⟩
    | _ => none
  toSlots v := [.ofToken? v.access, .ofToken? v.isStatic, .token v.keyword, .token v.name, .node v.parameters,
    .node v.block]

/-- Parameters and the type of the result. -/
structure CallSignature where
  parameters : Node
  resultType : Option Node

instance : NodeView CallSignature where
  kind := .callSignature
  ofSlots?
    | [.node parameters, resultType] =>
      some ⟨parameters, resultType.node?⟩
    | _ => none
  toSlots v := [.node v.parameters, .ofNode? v.resultType]

/-- Parameters in parentheses. -/
structure ParameterList where
  openParen : Token
  parameters : SeparatedNodes
  closeParen : Token

instance : NodeView ParameterList where
  kind := .parameterList
  ofSlots?
    | [.token openParen, .separated parameters parametersSeparators, .token closeParen] =>
      some ⟨openParen, ⟨parameters, parametersSeparators⟩, closeParen⟩
    | _ => none
  toSlots v := [.token v.openParen, .separated v.parameters.members v.parameters.separators, .token v.closeParen]

/-- A parameter. -/
structure Parameter where
  dots : Option Token
  access : Option Token
  name : Token
  question : Option Token
  type : Option Node
  value : Option Node

instance : NodeView Parameter where
  kind := .parameter
  ofSlots?
    | [dots, access, .token name, question, type, value] =>
      some ⟨dots.token?, access.token?, name, question.token?, type.node?, value.node?⟩
    | _ => none
  toSlots v := [.ofToken? v.dots, .ofToken? v.access, .token v.name, .ofToken? v.question, .ofNode? v.type,
    .ofNode? v.value]

/-- A statement that declares variables. -/
structure VariableStatement where
  exported : Option Token
  declared : Option Token
  declaration : Node
  semicolon : Token

instance : NodeView VariableStatement where
  kind := .variableStatement
  ofSlots?
    | [exported, declared, .node declaration, .token semicolon] =>
      some ⟨exported.token?, declared.token?, declaration, semicolon⟩
    | _ => none
  toSlots v := [.ofToken? v.exported, .ofToken? v.declared, .node v.declaration, .token v.semicolon]

/-- The word `var` and variables. -/
structure VariableDeclaration where
  keyword : Token
  declarators : SeparatedNodes

instance : NodeView VariableDeclaration where
  kind := .variableDeclaration
  ofSlots?
    | [.token keyword, .separated declarators declaratorsSeparators] =>
      some ⟨keyword, ⟨declarators, declaratorsSeparators⟩⟩
    | _ => none
  toSlots v := [.token v.keyword, .separated v.declarators.members v.declarators.separators]

/-- A variable with its type and value. -/
structure VariableDeclarator where
  name : Token
  type : Option Node
  value : Option Node

instance : NodeView VariableDeclarator where
  kind := .variableDeclarator
  ofSlots?
    | [.token name, type, value] =>
      some ⟨name, type.node?, value.node?⟩
    | _ => none
  toSlots v := [.token v.name, .ofNode? v.type, .ofNode? v.value]

/-- The form `= value`. -/
structure EqualsValueClause where
  equals : Token
  value : Node

instance : NodeView EqualsValueClause where
  kind := .equalsValueClause
  ofSlots?
    | [.token equals, .node value] =>
      some ⟨equals, value⟩
    | _ => none
  toSlots v := [.token v.equals, .node v.value]

/-- Statements between braces. -/
structure Block where
  openBrace : Token
  statements : List Node
  closeBrace : Token

instance : NodeView Block where
  kind := .block
  ofSlots?
    | [.token openBrace, .list statements, .token closeBrace] =>
      some ⟨openBrace, statements, closeBrace⟩
    | _ => none
  toSlots v := [.token v.openBrace, .list v.statements, .token v.closeBrace]

/-- An expression that is a statement. -/
structure ExpressionStatement where
  expression : Node
  semicolon : Token

instance : NodeView ExpressionStatement where
  kind := .expressionStatement
  ofSlots?
    | [.node expression, .token semicolon] =>
      some ⟨expression, semicolon⟩
    | _ => none
  toSlots v := [.node v.expression, .token v.semicolon]

/-- A literal. -/
structure LiteralExpression where
  literal : Token

instance : NodeView LiteralExpression where
  kind := .literalExpression
  ofSlots?
    | [.token literal] =>
      some ⟨literal⟩
    | _ => none
  toSlots v := [.token v.literal]

/-- The expression `this`. -/
structure ThisExpression where
  keyword : Token

instance : NodeView ThisExpression where
  kind := .thisExpression
  ofSlots?
    | [.token keyword] =>
      some ⟨keyword⟩
    | _ => none
  toSlots v := [.token v.keyword]

/-- The expression `super`. -/
structure SuperExpression where
  keyword : Token

instance : NodeView SuperExpression where
  kind := .superExpression
  ofSlots?
    | [.token keyword] =>
      some ⟨keyword⟩
    | _ => none
  toSlots v := [.token v.keyword]

/-- An expression in parentheses. -/
structure ParenthesizedExpression where
  openParen : Token
  expression : Node
  closeParen : Token

instance : NodeView ParenthesizedExpression where
  kind := .parenthesizedExpression
  ofSlots?
    | [.token openParen, .node expression, .token closeParen] =>
      some ⟨openParen, expression, closeParen⟩
    | _ => none
  toSlots v := [.token v.openParen, .node v.expression, .token v.closeParen]

/-- A prefix operator with its operand. -/
structure PrefixUnaryExpression where
  operator : Token
  operand : Node

instance : NodeView PrefixUnaryExpression where
  kind := .prefixUnaryExpression
  ofSlots?
    | [.token operator, .node operand] =>
      some ⟨operator, operand⟩
    | _ => none
  toSlots v := [.token v.operator, .node v.operand]

/-- The form `expression.name`. -/
structure MemberAccess where
  expression : Node
  dot : Token
  name : Token

instance : NodeView MemberAccess where
  kind := .memberAccessExpression
  ofSlots?
    | [.node expression, .token dot, .token name] =>
      some ⟨expression, dot, name⟩
    | _ => none
  toSlots v := [.node v.expression, .token v.dot, .token v.name]

/-- A call. -/
structure Invocation where
  callee : Node
  arguments : Node

instance : NodeView Invocation where
  kind := .invocationExpression
  ofSlots?
    | [.node callee, .node arguments] =>
      some ⟨callee, arguments⟩
    | _ => none
  toSlots v := [.node v.callee, .node v.arguments]

/-- Arguments in parentheses. -/
structure ArgumentList where
  openParen : Token
  arguments : SeparatedNodes
  closeParen : Token

instance : NodeView ArgumentList where
  kind := .argumentList
  ofSlots?
    | [.token openParen, .separated arguments argumentsSeparators, .token closeParen] =>
      some ⟨openParen, ⟨arguments, argumentsSeparators⟩, closeParen⟩
    | _ => none
  toSlots v := [.token v.openParen, .separated v.arguments.members v.arguments.separators, .token v.closeParen]

/-- A function that is an expression. -/
structure FunctionExpression where
  keyword : Token
  name : Option Token
  signature : Node
  block : Node

instance : NodeView FunctionExpression where
  kind := .functionExpression
  ofSlots?
    | [.token keyword, name, .node signature, .node block] =>
      some ⟨keyword, name.token?, signature, block⟩
    | _ => none
  toSlots v := [.token v.keyword, .ofToken? v.name, .node v.signature, .node v.block]

/-- A getter of an object literal. -/
structure ObjectGetter where
  keyword : Token
  name : Token
  openParen : Token
  closeParen : Token
  resultType : Option Node
  block : Node

instance : NodeView ObjectGetter where
  kind := .getAccessorPropertyAssignment
  ofSlots?
    | [.token keyword, .token name, .token openParen, .token closeParen, resultType, .node block] =>
      some ⟨keyword, name, openParen, closeParen, resultType.node?, block⟩
    | _ => none
  toSlots v := [.token v.keyword, .token v.name, .token v.openParen, .token v.closeParen, .ofNode? v.resultType,
    .node v.block]

/-- A setter of an object literal. -/
structure ObjectSetter where
  keyword : Token
  name : Token
  openParen : Token
  parameter : Node
  closeParen : Token
  block : Node

instance : NodeView ObjectSetter where
  kind := .setAccessorPropertyAssignment
  ofSlots?
    | [.token keyword, .token name, .token openParen, .node parameter, .token closeParen, .node block] =>
      some ⟨keyword, name, openParen, parameter, closeParen, block⟩
    | _ => none
  toSlots v := [.token v.keyword, .token v.name, .token v.openParen, .node v.parameter, .token v.closeParen,
    .node v.block]

/-- An arrow function with one bare parameter. -/
structure SimpleArrow where
  parameter : Token
  arrow : Token
  body : Node

instance : NodeView SimpleArrow where
  kind := .simpleArrowFunctionExpression
  ofSlots?
    | [.token parameter, .token arrow, .node body] =>
      some ⟨parameter, arrow, body⟩
    | _ => none
  toSlots v := [.token v.parameter, .token v.arrow, .node v.body]

/-- An arrow function with a signature. -/
structure ParenthesizedArrow where
  signature : Node
  arrow : Token
  body : Node

instance : NodeView ParenthesizedArrow where
  kind := .parenthesizedArrowFunctionExpression
  ofSlots?
    | [.node signature, .token arrow, .node body] =>
      some ⟨signature, arrow, body⟩
    | _ => none
  toSlots v := [.node v.signature, .token v.arrow, .node v.body]

/-- The form `<type>expression`. -/
structure Cast where
  lessThan : Token
  type : Node
  greaterThan : Token
  expression : Node

instance : NodeView Cast where
  kind := .castExpression
  ofSlots?
    | [.token lessThan, .node type, .token greaterThan, .node expression] =>
      some ⟨lessThan, type, greaterThan, expression⟩
    | _ => none
  toSlots v := [.token v.lessThan, .node v.type, .token v.greaterThan, .node v.expression]

end Downlevel

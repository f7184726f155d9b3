import Downlevel.Proofs.Tree.Every
import Mathlib.Data.List.Forall2
/-!
# Proofs.Tree.Sorts — which nodes stand where

The schema of a kind says whether a slot holds a token, a node or a list.  A `SlotSort` says besides which kinds of
node may stand in it: a statement where a statement belongs, an expression where a value is computed.  A tree is
well-formed when every node of it has slots of the right sorts (`Node.WellFormed`); the schema and the arity of
separated lists follow (`Node.FitsKind.length_eq`, `SlotSort.Admits.isOptional`, `SlotSort.Admits.arity`).
-/
namespace Downlevel

/-- A class of kinds that may stand at the same places. -/
inductive NodeClass where
  | only (kind : NodeKind)
  | expression
  /-- An element of an array, which may be left out. -/
  | listed
  | statement
  | element
  | type
  | typeMember
  | classMember
  | name
  | moduleName
  | objectMember
  | enumMember
  | switchClause
  /-- The body of an arrow function. -/
  | body
  deriving DecidableEq, Repr

namespace NodeKind

/-- A form that computes a value. -/
def isExpression : NodeKind → Bool
  | identifierName | literalExpression | thisExpression | superExpression | parenthesizedExpression => true
  | binaryExpression | conditionalExpression | prefixUnaryExpression | postfixUnaryExpression => true
  | memberAccessExpression | elementAccessExpression | invocationExpression | objectCreationExpression => true
  | arrayLiteralExpression | objectLiteralExpression | functionExpression | castExpression => true
  | simpleArrowFunctionExpression | parenthesizedArrowFunctionExpression => true
  | _ => false

/-- A form that may stand among statements. -/
def isStatement : NodeKind → Bool
  | variableStatement | functionDeclaration | block | expressionStatement | returnStatement | ifStatement => true
  | emptyStatement | whileStatement | doStatement | forStatement | forInStatement | breakStatement => true
  | continueStatement | throwStatement | tryStatement | switchStatement | labeledStatement => true
  | debuggerStatement | withStatement => true
  | _ => false

end NodeKind

namespace NodeClass

def includes : NodeClass → NodeKind → Bool
  | only k, kind => kind == k
  | expression, kind => kind.isExpression
  | listed, kind => kind.isExpression || kind == .omittedExpression
  | statement, kind => kind.isStatement
  | element, kind =>
    kind.isStatement || kind == .interfaceDeclaration || kind == .moduleDeclaration || kind == .classDeclaration
      || kind == .enumDeclaration
  | type, kind =>
    kind == .predefinedType || kind == .arrayType || kind == .objectType || kind == .functionType
      || kind == .constructorType || kind == .identifierName || kind == .qualifiedName
  | typeMember, kind =>
    kind == .propertySignature || kind == .methodSignature || kind == .indexSignature || kind == .callSignatureMember
      || kind == .constructSignature
  | classMember, kind =>
    kind == .constructorDeclaration || kind == .memberFunctionDeclaration || kind == .memberVariableDeclaration
      || kind == .getMemberAccessorDeclaration || kind == .setMemberAccessorDeclaration
  | name, kind => kind == .identifierName || kind == .qualifiedName
  | moduleName, kind => kind == .identifierName || kind == .qualifiedName || kind == .literalExpression
  | objectMember, kind =>
    kind == .simplePropertyAssignment || kind == .getAccessorPropertyAssignment
      || kind == .setAccessorPropertyAssignment || kind == .omittedExpression
  | enumMember, kind => kind == .enumElement || kind == .omittedExpression
  | switchClause, kind => kind == .caseSwitchClause || kind == .defaultSwitchClause
  | body, kind => kind.isExpression || kind == .block

end NodeClass

/-! A name is a type and may be the name of a module; whatever computes a value may be an element of an array or the body
of an arrow function; a statement may stand among the elements of a module. -/

namespace NodeClass

theorem name_type (k : NodeKind) : name.includes k = true → type.includes k = true := by cases k <;> decide

theorem name_moduleName (k : NodeKind) : name.includes k = true → moduleName.includes k = true := by
  cases k <;> decide

theorem expression_listed (k : NodeKind) : expression.includes k = true → listed.includes k = true := by
  cases k <;> decide

theorem expression_body (k : NodeKind) : expression.includes k = true → body.includes k = true := by
  cases k <;> decide

theorem statement_element (k : NodeKind) : statement.includes k = true → element.includes k = true := by
  cases k <;> decide

end NodeClass

/-- What a slot may hold, down to the kinds of node. -/
inductive SlotSort where
  | token
  | optionalToken
  | node (among : NodeClass)
  | optionalNode (among : NodeClass)
  | list (among : NodeClass)
  /-- A separated list that may be empty. -/
  | separated (among : NodeClass)
  /-- A separated list with a member at least. -/
  | nonempty (among : NodeClass)
  deriving DecidableEq, Repr

namespace SlotSort

def shape : SlotSort → SlotShape
  | token => .token
  | optionalToken => .optionalToken
  | node _ => .node
  | optionalNode _ => .optionalNode
  | list _ => .list
  | separated _ => .separatedList
  | nonempty _ => .separatedList

/-- The class that the nodes of a slot are of; a slot for a token has none. -/
def among : SlotSort → NodeClass
  | token => .only .omittedExpression
  | optionalToken => .only .omittedExpression
  | node c => c
  | optionalNode c => c
  | list c => c
  | separated c => c
  | nonempty c => c

/-- The slot holds what a slot of this sort may hold. -/
def Admits : SlotSort → Slot → Prop
  | token, .token _ => True
  | optionalToken, .absent => True
  | optionalToken, .token _ => True
  | node p, .node n => p.includes n.kind = true
  | optionalNode _, .absent => True
  | optionalNode p, .node n => p.includes n.kind = true
  | list p, .list ns => ∀ n ∈ ns, p.includes n.kind = true
  | separated p, .separated ns ts =>
    (∀ n ∈ ns, p.includes n.kind = true) ∧ (ns = [] ∧ ts = [] ∨ ns.length = ts.length + 1)
  | nonempty p, .separated ns ts => (∀ n ∈ ns, p.includes n.kind = true) ∧ ns.length = ts.length + 1
  | _, _ => False

end SlotSort

/-- The sorts of the slots of a kind, in document order. -/
def NodeKind.sorts : NodeKind → List SlotSort
  | sourceUnit => [.list .element, .token]
  | identifierName => [.token]
  | qualifiedName => [.node .name, .token, .token]
  | typeClause => [.token, .node .type]
  | predefinedType => [.token]
  | arrayType => [.node .type, .token, .token]
  | objectType => [.token, .list .typeMember, .token]
  | functionType => [.node (.only .parameterList), .token, .node .type]
  | constructorType => [.token, .node (.only .parameterList), .token, .node .type]
  | propertySignature => [.token, .optionalToken, .optionalNode (.only .typeClause), .optionalToken]
  | methodSignature => [.token, .optionalToken, .node (.only .callSignature), .optionalToken]
  | indexSignature =>
    [.token, .node (.only .parameter), .token, .optionalNode (.only .typeClause), .optionalToken]
  | callSignatureMember => [.node (.only .callSignature), .optionalToken]
  | constructSignature => [.token, .node (.only .callSignature), .optionalToken]
  | interfaceDeclaration =>
    [.optionalToken, .token, .token, .optionalNode (.only .extendsClause), .node (.only .objectType)]
  | extendsClause => [.token, .nonempty .name]
  | implementsClause => [.token, .nonempty .name]
  | functionDeclaration =>
    [.optionalToken, .optionalToken, .token, .token, .node (.only .callSignature), .optionalNode (.only .block),
      .optionalToken]
  | moduleDeclaration =>
    [.optionalToken, .optionalToken, .token, .node .moduleName, .token, .list .element, .token]
  | classDeclaration =>
    [.optionalToken, .optionalToken, .token, .token, .optionalNode (.only .extendsClause),
      .optionalNode (.only .implementsClause), .token, .list .classMember, .token]
  | enumDeclaration => [.optionalToken, .optionalToken, .token, .token, .token, .separated .enumMember, .token]
  | enumElement => [.token, .optionalNode (.only .equalsValueClause)]
  | constructorDeclaration =>
    [.token, .node (.only .parameterList), .optionalNode (.only .block), .optionalToken]
  | memberFunctionDeclaration =>
    [.optionalToken, .optionalToken, .token, .node (.only .callSignature), .optionalNode (.only .block),
      .optionalToken]
  | memberVariableDeclaration => [.optionalToken, .optionalToken, .node (.only .variableDeclarator), .token]
  | getMemberAccessorDeclaration =>
    [.optionalToken, .optionalToken, .token, .token, .node (.only .parameterList),
      .optionalNode (.only .typeClause), .node (.only .block)]
  | setMemberAccessorDeclaration =>
    [.optionalToken, .optionalToken, .token, .token, .node (.only .parameterList), .node (.only .block)]
  | callSignature => [.node (.only .parameterList), .optionalNode (.only .typeClause)]
  | parameterList => [.token, .separated (.only .parameter), .token]
  | parameter =>
    [.optionalToken, .optionalToken, .token, .optionalToken, .optionalNode (.only .typeClause),
      .optionalNode (.only .equalsValueClause)]
  | variableStatement => [.optionalToken, .optionalToken, .node (.only .variableDeclaration), .token]
  | variableDeclaration => [.token, .nonempty (.only .variableDeclarator)]
  | variableDeclarator =>
    [.token, .optionalNode (.only .typeClause), .optionalNode (.only .equalsValueClause)]
  | equalsValueClause => [.token, .node .expression]
  | block => [.token, .list .statement, .token]
  | expressionStatement => [.node .expression, .token]
  | returnStatement => [.token, .optionalNode .expression, .token]
  | ifStatement =>
    [.token, .token, .node .expression, .token, .node .statement, .optionalNode (.only .elseClause)]
  | elseClause => [.token, .node .statement]
  | emptyStatement => [.token]
  | whileStatement => [.token, .token, .node .expression, .token, .node .statement]
  | doStatement => [.token, .node .statement, .token, .token, .node .expression, .token, .token]
  | forStatement =>
    [.token, .token, .optionalNode (.only .variableDeclaration), .optionalNode .expression, .token,
      .optionalNode .expression, .token, .optionalNode .expression, .token, .node .statement]
  | forInStatement =>
    [.token, .token, .optionalNode (.only .variableDeclaration), .optionalNode .expression, .token,
      .node .expression, .token, .node .statement]
  | breakStatement => [.token, .optionalToken, .token]
  | continueStatement => [.token, .optionalToken, .token]
  | throwStatement => [.token, .node .expression, .token]
  | tryStatement =>
    [.token, .node (.only .block), .optionalNode (.only .catchClause), .optionalNode (.only .finallyClause)]
  | catchClause => [.token, .token, .token, .token, .node (.only .block)]
  | finallyClause => [.token, .node (.only .block)]
  | switchStatement =>
    [.token, .token, .node .expression, .token, .token, .list .switchClause, .token]
  | caseSwitchClause => [.token, .node .expression, .token, .list .statement]
  | defaultSwitchClause => [.token, .token, .list .statement]
  | labeledStatement => [.token, .token, .node .statement]
  | debuggerStatement => [.token, .token]
  | withStatement => [.token, .token, .node .expression, .token, .node .statement]
  | literalExpression => [.token]
  | thisExpression => [.token]
  | superExpression => [.token]
  | parenthesizedExpression => [.token, .node .expression, .token]
  | binaryExpression => [.node .expression, .token, .node .expression]
  | conditionalExpression => [.node .expression, .token, .node .expression, .token, .node .expression]
  | prefixUnaryExpression => [.token, .node .expression]
  | postfixUnaryExpression => [.node .expression, .token]
  | memberAccessExpression => [.node .expression, .token, .token]
  | elementAccessExpression => [.node .expression, .token, .node .expression, .token]
  | invocationExpression => [.node .expression, .node (.only .argumentList)]
  | argumentList => [.token, .separated .expression, .token]
  | objectCreationExpression => [.token, .node .expression, .optionalNode (.only .argumentList)]
  | arrayLiteralExpression => [.token, .separated .listed, .token]
  | objectLiteralExpression => [.token, .separated .objectMember, .token]
  | simplePropertyAssignment => [.token, .token, .node .expression]
  | getAccessorPropertyAssignment =>
    [.token, .token, .token, .token, .optionalNode (.only .typeClause), .node (.only .block)]
  | setAccessorPropertyAssignment =>
    [.token, .token, .token, .node (.only .parameter), .token, .node (.only .block)]
  | functionExpression => [.token, .optionalToken, .node (.only .callSignature), .node (.only .block)]
  | simpleArrowFunctionExpression => [.token, .token, .node .body]
  | parenthesizedArrowFunctionExpression => [.node (.only .callSignature), .token, .node .body]
  | castExpression => [.token, .node .type, .token, .node .expression]
  | omittedExpression => []

/-- **The sorts of a kind refine its schema.** -/
theorem NodeKind.map_shape_sorts (kind : NodeKind) : kind.sorts.map SlotSort.shape = kind.shapes := by
  cases kind <;> rfl

/-- The slots of a node are of the sorts of its kind. -/
def Node.FitsKind (n : Node) : Prop := List.Forall₂ SlotSort.Admits n.kind.sorts n.slots

/-- Every node of a tree has slots of the sorts of its kind. -/
def Node.WellFormed (n : Node) : Prop := n.Every Node.FitsKind

namespace SlotSort.Admits

variable {s : SlotSort}

/-- What is left out may be left out. -/
theorem isOptional (h : s.Admits .absent) : s.shape.isOptional = true := by
  cases s <;> first | exact h.elim | rfl

theorem fits {slot : Slot} (h : s.Admits slot) : slot.fits s.shape = true := by
  cases s <;> cases slot <;> first | rfl | exact h.elim

/-- A separated list is empty or has one member more than separators. -/
theorem arity {ns : List Node} {ts : List Token} (h : s.Admits (.separated ns ts)) :
    ns = [] ∧ ts = [] ∨ ns.length = ts.length + 1 := by
  cases s with
  | separated p => exact h.2
  | nonempty p => exact .inr h.2
  | _ => exact h.elim

end SlotSort.Admits

theorem Node.FitsKind.length_eq {n : Node} (h : n.FitsKind) : n.kind.schema.length = n.slots.length := by
  have hs : n.kind.sorts.length = n.slots.length := List.Forall₂.length_eq h
  have hm := congrArg List.length n.kind.map_shape_sorts
  simp only [List.length_map, NodeKind.shapes] at hm
  omega

end Downlevel

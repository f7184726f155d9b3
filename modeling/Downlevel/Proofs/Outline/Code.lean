import Downlevel.Proofs.Outline.Draft
import Downlevel.Proofs.Outline.References
/-!
# Proofs.Outline.Code — the forms that lowering writes

The code that takes the place of classes, enums and namespaces is put together from a few forms of the target language.
Here each form is a tree without trivia and without numbers of objects, given by what stands in it, and what is built for
it has that outline, whichever numbers it took.
-/
namespace Downlevel

namespace Code

variable {j : ObjectId} {t : Token} {n m : Node} {ns : List Node}

/-! ## Tokens -/

/-- A token with a fixed spelling. -/
def token (kind : TokenKind) : Token := Token.outline ⟨0, .ofKind kind⟩

def mark (p : Punctuation) : Token := token (.punctuation p)

def word (k : Keyword) : Token := token (.keyword k)

/-- A name that is spelled out. -/
def spelled (text : String) : Token := Token.outline ⟨0, .identifier text.toList⟩

/-- The name of a member; a reserved word is a plain name there. -/
def memberName (t : Token) : Token := if t.kind.isKeyword then Token.outline ⟨0, t.lexeme.asName⟩ else t.outline

/-! ## Expressions -/

/-- The expression `t`. -/
def name (t : Token) : Node := .mk 0 .identifierName [.token t.outline]

/-- The expression `this`. -/
def thisKeyword : Node := .mk 0 .thisExpression [.token (word .thisKw)]

def literal (t : Token) : Node := .mk 0 .literalExpression [.token t.outline]

/-- The string literal that denotes a text. -/
def string (value : List Char) : Node := literal ⟨0, .stringLiteral (Build.stringText value)⟩

def numeral (text : List Char) : Node := literal ⟨0, .numericLiteral text⟩

/-- The literal of a number; a negative one has a sign in front. -/
def number (x : Binary64) : Node :=
  if x.isNegative then .mk 0 .prefixUnaryExpression [.token (mark .minus), .node (numeral x.neg.text)]
  else numeral x.text

/-- The expression `object.t`. -/
def member (object : Node) (t : Token) : Node :=
  .mk 0 .memberAccessExpression [.node object, .token (mark .dot), .token (memberName t)]

/-- The expression `object[key]`. -/
def element (object key : Node) : Node :=
  .mk 0 .elementAccessExpression [.node object, .token (mark .openBracket), .node key, .token (mark .closeBracket)]

/-- The member of an object that a name of a member stands for: `object["t"]` if it is a string or a number, `object.t`
otherwise. -/
def memberNamed (object : Node) (t : Token) : Node :=
  if t.kind = .string ∨ t.kind = .number then element object (literal t) else member object t

def commaSeparated (ns : List Node) : Slot := .separated ns (List.replicate (ns.length - 1) (mark .comma))

/-- The expression `function(arguments)`. -/
def call (function : Node) (arguments : List Node) : Node :=
  .mk 0 .invocationExpression [.node function,
    .node (.mk 0 .argumentList [.token (mark .openParen), commaSeparated arguments, .token (mark .closeParen)])]

/-- An expression with two operands. -/
def binary (left : Node) (operator : Punctuation) (right : Node) : Node :=
  .mk 0 .binaryExpression [.node left, .token (mark operator), .node right]

/-- The expression `target = value`. -/
def assign (target value : Node) : Node := binary target .equals value

/-- The expression `(n)`. -/
def parenthesized (n : Node) : Node :=
  .mk 0 .parenthesizedExpression [.token (mark .openParen), .node n, .token (mark .closeParen)]

/-- The expression `[]`. -/
def emptyArray : Node :=
  .mk 0 .arrayLiteralExpression [.token (mark .openBracket), commaSeparated [], .token (mark .closeBracket)]

def object (properties : List Node) : Node :=
  .mk 0 .objectLiteralExpression [.token (mark .openBrace), commaSeparated properties, .token (mark .closeBrace)]

/-- The property `text: value`. -/
def property (text : String) (value : Node) : Node :=
  .mk 0 .simplePropertyAssignment [.token (spelled text), .token (mark .colon), .node value]

/-- The expression `true`. -/
def trueKeyword : Node := literal (word .trueKw)

/-- The expression `target || (assignee = {})`. -/
def orCreate (target assignee : Node) : Node := binary target .barBar (parenthesized (assign assignee (object [])))

/-! ## Statements and functions -/

/-- The statement `n;`. -/
def statement (n : Node) : Node := .mk 0 .expressionStatement [.node n, .token (mark .semicolon)]

/-- The statement `target = value;`. -/
def assignment (target value : Node) : Node := statement (assign target value)

/-- The statement `return n;`. -/
def returned (n : Node) : Node := .mk 0 .returnStatement [.token (word .returnKw), .node n, .token (mark .semicolon)]

/-- What stands in `var t = value;` and in `var t;` behind the name. -/
def initializer : Option Node → Slot
  | none => .absent
  | some value => .node (.mk 0 .equalsValueClause [.token (mark .equals), .node value])

/-- The statement `var t = value;` or `var t;`. -/
def var (t : Token) (value : Option Node) : Node :=
  .mk 0 .variableStatement [.absent, .absent,
    .node (.mk 0 .variableDeclaration [.token (word .varKw),
      .separated [.mk 0 .variableDeclarator [.token t.outline, .absent, initializer value]] []]),
    .token (mark .semicolon)]

/-- The statement `var _this = this;`. -/
def capture : Node := var (spelled "_this") (some thisKeyword)

/-- Statements with `var _this = this;` in front, if it is needed. -/
def captured (needed : Bool) (statements : List Node) : List Node := if needed then capture :: statements else statements

/-- A parameter that is a name and nothing else. -/
def parameter (t : Token) : Node := .mk 0 .parameter [.absent, .absent, .token t.outline, .absent, .absent, .absent]

/-- Such parameters between parentheses. -/
def parameters (ts : List Token) : Node :=
  .mk 0 .parameterList [.token (mark .openParen), commaSeparated (ts.map parameter), .token (mark .closeParen)]

/-- Statements between braces. -/
def block (statements : List Node) : Node :=
  .mk 0 .block [.token (mark .openBrace), .list statements, .token (mark .closeBrace)]

/-- Parameters without the type of the result. -/
def signature (parameters : Node) : Node := .mk 0 .callSignature [.node parameters, .absent]

/-- The expression `function (parameters) block`. -/
def function (parameters block : Node) : Node :=
  .mk 0 .functionExpression [.token (word .functionKw), .absent, .node (signature parameters), .node block]

/-- The declaration `function t(parameters) block`. -/
def functionDeclaration (t : Token) (parameters block : Node) : Node :=
  .mk 0 .functionDeclaration
    [.absent, .absent, .token (word .functionKw), .token t.outline, .node (signature parameters), .node block, .absent]

/-- **A wrapper**: the call `(function (ts) { body })(arguments)`. -/
def wrapper (ts : List Token) (body arguments : List Node) : Node :=
  call (parenthesized (function (parameters ts) (block body))) arguments

/-! ## What is built has these outlines -/

@[simp] theorem name_outline : name t.outline = name t := rfl

theorem outline_toName : (t.toName j).1.outline = memberName t := by
  unfold Token.toName memberName
  split <;> rfl

@[simp] theorem outline_nameExpression : (Build.nameExpression t j).1.outline = name t := rfl

@[simp] theorem outline_stringLiteral {value : List Char} : (Build.stringLiteral value j).1.outline = string value := rfl

@[simp] theorem outline_numericLiteral {text : List Char} : (Build.numericLiteral text j).1.outline = numeral text := rfl

theorem outline_numberExpression {x : Binary64} : (LoweringContext.numberExpression x j).1.outline = number x := by
  unfold LoweringContext.numberExpression number
  split <;> rfl

@[simp] theorem outline_memberAccess : (Build.memberAccess n t j).1.outline = member n.outline t := by
  simp only [Build.memberAccess, Fresh.bind_apply, Node.fresh, Node.outline_mk, member]
  simp only [List.map_cons, List.map_nil, Slot.outline_node, Slot.outline_token, outline_toName]
  rfl

@[simp] theorem outline_elementAccess : (Build.elementAccess n m j).1.outline = element n.outline m.outline := rfl

@[simp] theorem outline_memberTarget : (LoweringContext.memberTarget n t j).1.outline = memberNamed n.outline t := by
  unfold LoweringContext.memberTarget memberNamed
  split
  · rfl
  · exact (outline_memberAccess (t := (t.bare j).1)).trans rfl

@[simp] theorem outline_binary {operator : Punctuation} :
    (Build.binary n (.punctuation operator) m j).1.outline = binary n.outline operator m.outline := rfl

@[simp] theorem outline_assignment : (Build.assignment n m j).1.outline = assign n.outline m.outline := rfl

@[simp] theorem outline_parenthesized : (Build.parenthesized n j).1.outline = parenthesized n.outline := rfl

theorem outlines_separatorsBetween {w : Fresh Token} (h : ∀ j, (w j).1.outline = mark .comma) :
    ∀ (ns : List Node) (j : ObjectId),
      (Build.separatorsBetween w ns j).1.map Token.outline = List.replicate (ns.length - 1) (mark .comma)
  | [], _ => rfl
  | [_], _ => rfl
  | _ :: n :: ns, j => by
    simp only [Build.separatorsBetween, Fresh.bind_apply, Fresh.pure_apply, List.map_cons, h,
      outlines_separatorsBetween h (n :: ns), List.length_cons, Nat.add_sub_cancel, List.replicate_succ]

theorem outline_markThenSpace {p : Punctuation} : (Build.markThenSpace p j).1.outline = mark p := rfl

@[simp] theorem outline_commaSeparated : (Build.commaSeparated ns j).1.outline = commaSeparated (ns.map Node.outline) := by
  simp only [Build.commaSeparated, Fresh.bind_apply, Fresh.pure_apply, Slot.outline_separated, commaSeparated,
    outlines_separatorsBetween (fun _ => outline_markThenSpace), List.length_map]

@[simp] theorem outline_invocation : (Build.invocation n ns j).1.outline = call n.outline (ns.map Node.outline) := by
  simp only [Build.invocation, Build.argumentList, Fresh.bind_apply, Node.fresh, Node.outline_mk, List.map_cons, List.map_nil,
    Slot.outline_node, Slot.outline_token, outline_commaSeparated]
  rfl

theorem outline_emptyArray : (Build.arrayLiteral [] j).1.outline = emptyArray := rfl

@[simp] theorem outline_orCreate : (LoweringContext.orCreate n m j).1.outline = orCreate n.outline m.outline := rfl

@[simp] theorem outline_expressionStatement : (Build.expressionStatement n j).1.outline = statement n.outline := rfl

@[simp] theorem outline_assignmentStatement :
    (LoweringContext.assignmentStatement n m j).1.outline = assignment n.outline m.outline := rfl

@[simp] theorem outline_returnStatement : (Build.returnStatement (some n) j).1.outline = returned n.outline := rfl

@[simp] theorem outline_variableStatement {value : Option Node} :
    (Build.variableStatement t value j).1.outline = var t (value.map Node.outline) := by
  cases value <;> rfl

@[simp] theorem outlines_withCapture {needed : Bool} :
    (Draft.withCapture needed ns j).1.map Node.outline = captured needed (ns.map Node.outline) := by
  cases needed <;> rfl

theorem outline_parameterList {ts : List Token} (h : ns.map Node.outline = ts.map parameter) :
    (Build.parameterList ns j).1.outline = parameters ts := by
  simp only [Build.parameterList, Fresh.bind_apply, Node.fresh, Node.outline_mk, List.map_cons, List.map_nil,
    Slot.outline_token, outline_commaSeparated, h]
  rfl

@[simp] theorem outline_functionExpression :
    (Draft.functionExpression n m j).1.outline = function n.outline m.outline := rfl

@[simp] theorem outline_functionDeclaration :
    (Draft.functionDeclaration t n m j).1.outline = functionDeclaration t n.outline m.outline := rfl

@[simp] theorem outline_braced : (Draft.braced ns j).1.outline = block (ns.map Node.outline) := by
  simp only [Draft.braced, Build.block, Fresh.bind_apply, Node.fresh, Node.outline_mk, List.map_cons, List.map_nil,
    Slot.outline_token, Slot.outline_list]
  rfl

theorem outline_wrapperCall {ts : List Token} {arguments : List Node} (h : ns.map Node.outline = ts.map parameter) :
    (Draft.wrapperCall ns n arguments j).1.outline =
      call (parenthesized (function (parameters ts) n.outline)) (arguments.map Node.outline) := by
  simp only [Draft.wrapperCall, Fresh.bind_apply, outline_invocation, outline_parenthesized, outline_functionExpression,
    outline_parameterList h]

/-- A wrapper with one parameter. -/
theorem outline_wrapper {body arguments : List Node} {k : ObjectId} (h : n.outline = block body) :
    (Draft.wrapperCall [(Build.parameter t k).1] n arguments j).1.outline = wrapper [t] body (arguments.map Node.outline) := by
  have hparameter : [(Build.parameter t k).1].map Node.outline = [t].map parameter := rfl
  rw [outline_wrapperCall hparameter, h]
  rfl

end Code

end Downlevel

import Downlevel.Tree.Edit
/-!
# Tree.Build — trees of code that was not written by hand

Each function builds one form of the target language with single spaces where hand-written code has them: `a = b`,
`f(a, b)`, `function (x) `.  Ends of line and indentation are left to whoever knows the layout.
-/
namespace Downlevel.Build

def oneSpace : TriviaList := .space [' ']

/-- A token with the fixed spelling of its kind. -/
def token (kind : TokenKind) : Fresh Token := Token.fresh (.ofKind kind)

def mark (p : Punctuation) : Fresh Token := token (.punctuation p)

def tokenThenSpace (kind : TokenKind) : Fresh Token := do
  (← token kind).withTrailing oneSpace

/-- A token with a space on either side. -/
def spacedToken (kind : TokenKind) : Fresh Token := do
  (← token kind).withTrivia oneSpace oneSpace

def markThenSpace (p : Punctuation) : Fresh Token := tokenThenSpace (.punctuation p)

def wordThenSpace (k : Keyword) : Fresh Token := tokenThenSpace (.keyword k)

def openBrace (trailing : TriviaList) : Fresh Token := do (← mark .openBrace).withTrailing trailing

/-- A brace that closes a block, with trivia in front. -/
def closeBrace (leading : TriviaList) : Fresh Token := do (← mark .closeBrace).withLeading leading

def identifier (name : List Char) : Fresh Token := Token.fresh (.identifier name)

/-! ## Expressions -/

def nameExpression (identifier : Token) : Fresh Node := Node.fresh .identifierName [.token identifier]

def name (text : List Char) : Fresh Node := do nameExpression (← identifier text)

/-- The expression `this`. -/
def thisExpression : Fresh Node := do Node.fresh .thisExpression [.token (← token (.keyword .thisKw))]

def literal (t : Token) : Fresh Node := Node.fresh .literalExpression [.token t]

/-- A character as it is written in a string literal with double quotes. -/
def escaped (c : Char) : List Char :=
  if c = '"' then ['\\', '"']
  else if c = '\\' then ['\\', '\\']
  else if c = '\n' then ['\\', 'n']
  else if c = '\r' then ['\\', 'r']
  else [c]

/-- The text of a string literal that denotes `value`. -/
def stringText (value : List Char) : List Char := '"' :: value.flatMap escaped ++ ['"']

/-- A string literal in double quotes. -/
def stringLiteral (value : List Char) : Fresh Node := do
  literal (← Token.fresh (.stringLiteral (stringText value)))

def numericLiteral (text : List Char) : Fresh Node := do literal (← Token.fresh (.numericLiteral text))

/-- A literal that is a reserved word. -/
def keywordLiteral (kind : TokenKind) : Fresh Node := do literal (← token kind)

/-- The form `expression.name`. -/
def memberAccess (expression : Node) (name : Token) : Fresh Node := do
  Node.fresh .memberAccessExpression [.node expression, .token (← mark .dot), .token (← name.toName)]

/-- The form `expression.a.b.c`. -/
def memberPath (expression : Node) : List (List Char) → Fresh Node
  | [] => return expression
  | name :: names => do memberPath (← memberAccess expression (← identifier name)) names

/-- The form `expression[argument]`. -/
def elementAccess (expression argument : Node) : Fresh Node := do
  Node.fresh .elementAccessExpression
    [.node expression, .token (← mark .openBracket), .node argument, .token (← mark .closeBracket)]

/-- As many tokens as there are places between the elements of a list. -/
def separatorsBetween (separator : Fresh Token) : List Node → Fresh (List Token)
  | _ :: n :: ns => do
    let t ← separator
    return t :: (← separatorsBetween separator (n :: ns))
  | _ => return []

/-- Nodes with a comma and a space between two. -/
def commaSeparated (nodes : List Node) : Fresh Slot := do
  return .separated nodes (← separatorsBetween (markThenSpace .comma) nodes)

def argumentList (arguments : List Node) : Fresh Node := do
  Node.fresh .argumentList [.token (← mark .openParen), ← commaSeparated arguments, .token (← mark .closeParen)]

/-- The form `expression(arguments)`. -/
def invocation (expression : Node) (arguments : List Node) : Fresh Node := do
  Node.fresh .invocationExpression [.node expression, .node (← argumentList arguments)]

/-- A binary expression with spaces around the operator. -/
def binary (left : Node) (operator : TokenKind) (right : Node) : Fresh Node := do
  Node.fresh .binaryExpression [.node left, .token (← spacedToken operator), .node right]

/-- The form `left = right`. -/
def assignment (left right : Node) : Fresh Node := binary left (.punctuation .equals) right

/-- A prefix operator with its operand; an operator that is a word has a space behind. -/
def prefixUnary (operator : TokenKind) (operand : Node) : Fresh Node := do
  let t ← if operator.isKeyword then tokenThenSpace operator else token operator
  Node.fresh .prefixUnaryExpression [.token t, .node operand]

def postfixUnary (operand : Node) (operator : TokenKind) : Fresh Node := do
  Node.fresh .postfixUnaryExpression [.node operand, .token (← token operator)]

/-- The form `[a, b]`. -/
def arrayLiteral (elements : List Node) : Fresh Node := do
  Node.fresh .arrayLiteralExpression
    [.token (← mark .openBracket), ← commaSeparated elements, .token (← mark .closeBracket)]

def parenthesized (expression : Node) : Fresh Node := do
  Node.fresh .parenthesizedExpression [.token (← mark .openParen), .node expression, .token (← mark .closeParen)]

/-- The form `name: expression`. -/
def propertyAssignment (name : Token) (expression : Node) : Fresh Node := do
  Node.fresh .simplePropertyAssignment [.token (← name.toName), .token (← markThenSpace .colon), .node expression]

def objectLiteral (openBrace : Token) (members : Slot) (closeBrace : Token) : Fresh Node :=
  Node.fresh .objectLiteralExpression [.token openBrace, members, .token closeBrace]

/-- An object literal without members. -/
def emptyObject : Fresh Node := do objectLiteral (← mark .openBrace) (.separated [] []) (← mark .closeBrace)

/-! ## Statements -/

/-- The form `expression;`. -/
def expressionStatement (expression : Node) : Fresh Node := do
  Node.fresh .expressionStatement [.node expression, .token (← mark .semicolon)]

/-- The form `return expression;` or `return;`. -/
def returnStatement (expression : Option Node) : Fresh Node := do
  let keyword ← if expression.isSome then wordThenSpace .returnKw else token (.keyword .returnKw)
  Node.fresh .returnStatement [.token keyword, .ofNode? expression, .token (← mark .semicolon)]

/-- The form ` = value`. -/
def equalsValueClause (value : Node) : Fresh Node := do
  Node.fresh .equalsValueClause [.token (← spacedToken (.punctuation .equals)), .node value]

/-- The form `var name = value` without a semicolon. -/
def variableDeclaration (name : Token) (value : Option Node) : Fresh Node := do
  let clause ← match value with
    | some v => Slot.node <$> equalsValueClause v
    | none => pure Slot.absent
  let declarator ← Node.fresh .variableDeclarator [.token name, .absent, clause]
  Node.fresh .variableDeclaration [.token (← wordThenSpace .varKw), .separated [declarator] []]

/-- The form `var name = value;` or `var name;`. -/
def variableStatement (name : Token) (value : Option Node) : Fresh Node := do
  Node.fresh .variableStatement
    [.absent, .absent, .node (← variableDeclaration name value), .token (← mark .semicolon)]

/-- A parameter that is a name and nothing else. -/
def parameter (identifier : Token) : Fresh Node :=
  Node.fresh .parameter [.absent, .absent, .token identifier, .absent, .absent, .absent]

def parameterList (parameters : List Node) : Fresh Node := do
  Node.fresh .parameterList [.token (← mark .openParen), ← commaSeparated parameters, .token (← mark .closeParen)]

/-- The signature of a function without a type. -/
def callSignature (parameterList : Node) : Fresh Node := Node.fresh .callSignature [.node parameterList, .absent]

/-- Statements between two braces. -/
def block (openBrace : Token) (statements : List Node) (closeBrace : Token) : Fresh Node :=
  Node.fresh .block [.token openBrace, .list statements, .token closeBrace]

/-- A node with one space behind, unless there is trivia behind it already. -/
def spaceAfter (n : Node) : Fresh Node := do
  if 0 < n.trailing.fullWidth then return n else n.withTrailing oneSpace

/-- The form `function (parameters) block`. -/
def functionExpression (parameterList block : Node) : Fresh Node := do
  let keyword ← wordThenSpace .functionKw
  let signature ← callSignature (← spaceAfter parameterList)
  Node.fresh .functionExpression [.token keyword, .absent, .node signature, .node block]

/-- The form `function name(parameters) block`. -/
def functionDeclaration (identifier : Token) (parameterList block : Node) : Fresh Node := do
  let keyword ← wordThenSpace .functionKw
  let signature ← callSignature (← spaceAfter parameterList)
  Node.fresh .functionDeclaration
    [.absent, .absent, .token keyword, .token identifier, .node signature, .node block, .absent]

/-- The form `if (condition) statement`. -/
def ifStatement (condition statement : Node) : Fresh Node := do
  Node.fresh .ifStatement
    [.token (← wordThenSpace .ifKw), .token (← mark .openParen), .node condition,
      .token (← markThenSpace .closeParen), .node statement, .absent]

end Downlevel.Build

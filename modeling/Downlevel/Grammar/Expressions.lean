import Downlevel.Grammar.Types
/-!
# Grammar.Expressions — operators, calls and literals

Binary operators are read by their precedence, which says how tightly each binds (`precedence`); an operator of equal
precedence takes what stands to its left.  What starts with a parenthesis is read as the signature of an arrow function
first and read again as an expression if no arrow follows.
-/
namespace Downlevel

namespace Parser

/-! ## Functions -/

/-- Statements between braces. -/
def block (d : Descent) : Parser Node :=
  node .block [mark .openBrace, members d (d.parse .statement), mark .closeBrace]

/-- The body of an arrow function: a block or an expression. -/
def arrowBody (d : Descent) (allowIn : Bool) : Part := do
  if ← seesMark .openBrace then inner (block d) else inner (d.parse (.assignment allowIn))

/-- The place is in front of the arrow of a function. -/
def atArrow (r : Reading) : Bool := r.kind == .punctuation .equalsGreaterThan

def arrowFunction? (d : Descent) (allowIn : Bool) : Parser (Option Node) := do
  let r ← here
  match r.kind with
  | .identifier =>
    if r.nextIs (.punctuation .equalsGreaterThan) then
      some <$> node .simpleArrowFunctionExpression [name, mark .equalsGreaterThan, arrowBody d allowIn]
    else return none
  | .punctuation .openParen =>
    -- Only the arrow behind them tells parameters from an expression in parentheses.
    match ← attempt (callSignature d) atArrow with
    | some signature =>
      some <$> nodeAfter .parenthesizedArrowFunctionExpression [.node signature]
        [mark .equalsGreaterThan, arrowBody d allowIn]
    | none => return none
  | _ => return none

/-! ## Literals -/

/-- The members of an array literal up to its closing bracket, in at most so many turns; `behindComma` says whether a
comma was read.  An element that is left out, also behind the last comma, is an omitted one. -/
def arrayElementsUpTo (d : Descent) : Nat → Bool → Parser (List Node × List Token)
  | 0, _ => fault .tooDeep
  | turns + 1, behindComma => do
    if ← seesMark .closeBracket then
      if behindComma then return ([← omitted], []) else return ([], [])
    -- A comma where an element is expected stands behind one that was left out.
    let n ← if ← seesMark .comma then omitted else d.parse (.assignment true)
    match ← token? (.punctuation .comma) with
    | none => return ([n], [])
    | some t => return separatedCons n t (← arrayElementsUpTo d turns true)

/-- The members of an array literal. -/
def arrayElements (d : Descent) : Part := do
  let (ns, ts) ← arrayElementsUpTo d d.loop false
  return .separated ns ts

/-- The place is in front of the name of a member. -/
def beforePropertyName (r : Reading) : Bool := r.nextHas Reading.isPropertyName

/-- A member of an object literal. -/
def propertyAssignment (d : Descent) : Parser Node := do
  let r ← here
  if r.isWord "get" && beforePropertyName r then
    node .getAccessorPropertyAssignment
      [current, property, mark .openParen, mark .closeParen, typeClause d, inner (block d)]
  else if r.isWord "set" && beforePropertyName r then
    node .setAccessorPropertyAssignment
      [current, property, mark .openParen, inner (parameter d), mark .closeParen, inner (block d)]
  else
    node .simplePropertyAssignment [property, mark .colon, inner (d.parse (.assignment true))]

/-- An expression with a comma and another one behind, if a comma follows it. -/
def commaStep (d : Descent) (allowIn : Bool) (left : Node) : Parser (Option Node) := do
  if ← seesMark .comma then
    some <$> nodeAfter .binaryExpression [.node left] [mark .comma, inner (d.parse (.assignment allowIn))]
  else return none

/-- An expression; `allowIn` is false where the word `in` ends it. -/
def expression (d : Descent) (allowIn : Bool) : Parser Node := do
  grow d (commaStep d allowIn) (← d.parse (.assignment allowIn))

def regularExpression : Parser Node := do
  rescan
  node .literalExpression [current]

/-- An expression that no operator takes apart. -/
def primary (d : Descent) : Parser Node := do
  let r ← here
  match r.kind with
  | .keyword .thisKw => node .thisExpression [current]
  | .keyword .superKw => node .superExpression [current]
  | .identifier => node .identifierName [current]
  | .number | .string | .keyword .trueKw | .keyword .falseKw | .keyword .nullKw => node .literalExpression [current]
  | .punctuation .slash | .punctuation .slashEquals => regularExpression
  | .punctuation .openParen =>
    node .parenthesizedExpression [mark .openParen, inner (expression d true), mark .closeParen]
  | .punctuation .openBracket =>
    node .arrayLiteralExpression [mark .openBracket, arrayElements d, mark .closeBracket]
  | .punctuation .openBrace =>
    node .objectLiteralExpression
      [mark .openBrace, delimited d .closeBrace true (propertyAssignment d), mark .closeBrace]
  | .keyword .functionKw =>
    node .functionExpression [word .functionKw, optional .identifier, inner (callSignature d), inner (block d)]
  | _ => expected .expression

/-! ## Members, calls and `new` -/

def argumentList (d : Descent) : Parser Node :=
  node .argumentList [mark .openParen, delimited d .closeParen false (d.parse (.assignment true)), mark .closeParen]

/-- An expression with a member, an element or a call behind, if one follows it. -/
def suffixStep (d : Descent) (allowCalls : Bool) (n : Node) : Parser (Option Node) := do
  let r ← here
  match r.kind with
  | .punctuation .dot => some <$> nodeAfter .memberAccessExpression [.node n] [mark .dot, member]
  | .punctuation .openBracket =>
    some <$> nodeAfter .elementAccessExpression [.node n]
      [mark .openBracket, inner (expression d true), mark .closeBracket]
  | .punctuation .openParen =>
    if allowCalls then some <$> nodeAfter .invocationExpression [.node n] [inner (argumentList d)] else return none
  | _ => return none

/-- An expression with all members, elements and calls behind it. -/
def suffixes (d : Descent) (allowCalls : Bool) (n : Node) : Parser Node := grow d (suffixStep d allowCalls) n

/-- The object of a call or an access, or the target of `new`. -/
def callee (d : Descent) : Parser Node := do
  if ← seesWord .newKw then d.parse .creation else primary d

/-- The form `new target(arguments)`. -/
def creation (d : Descent) : Parser Node := do
  enter
  let keyword ← current
  let target ← leaving (callee d)
  let target ← suffixes d false target
  nodeAfter .objectCreationExpression [keyword, .node target] [innerIfMark .openParen (argumentList d)]

/-! ## Operators -/

/-- The place is in front of an operator that stands before its operand. -/
def atPrefixOperator (r : Reading) : Bool :=
  match r.kind with
  | .punctuation .plusPlus | .punctuation .minusMinus | .punctuation .plus | .punctuation .minus => true
  | .punctuation .tilde | .punctuation .exclamation => true
  | .keyword .deleteKw | .keyword .voidKw | .keyword .typeOfKw => true
  | _ => false

/-- The place is in front of an operator that stands behind its operand, on the same line. -/
def atPostfixOperator (r : Reading) : Bool :=
  (r.kind == .punctuation .plusPlus || r.kind == .punctuation .minusMinus) && !r.startsLine

/-- An operand with the postfix operator behind it, if there is one. -/
def postfixed (n : Node) : Parser Node := do
  if atPostfixOperator (← here) then nodeAfter .postfixUnaryExpression [.node n] [current] else return n

/-- An operand with its prefix and postfix operators. -/
def unary (d : Descent) : Parser Node := nested do
  let r ← here
  if atPrefixOperator r then node .prefixUnaryExpression [current, inner (d.parse .unary)]
  else if r.kind = .punctuation .lessThan then
    node .castExpression
      [mark .lessThan, inner (d.parse .type), mark .greaterThan, inner (d.parse .unary)]
  else do
    let n ← suffixes d true (← callee d)
    postfixed n

end Parser

/-- **How tightly a binary operator binds**; zero for what is none.  Where a loop head is read, `in` is none. -/
def TokenKind.precedence (allowIn : Bool) : TokenKind → Nat
  | .punctuation .barBar => 1
  | .punctuation .ampersandAmpersand => 2
  | .punctuation .bar => 3
  | .punctuation .caret => 4
  | .punctuation .ampersand => 5
  | .punctuation .equalsEquals | .punctuation .exclamationEquals => 6
  | .punctuation .equalsEqualsEquals | .punctuation .exclamationEqualsEquals => 6
  | .punctuation .lessThan | .punctuation .greaterThan => 7
  | .punctuation .lessThanEquals | .punctuation .greaterThanEquals => 7
  | .keyword .instanceOfKw => 7
  | .keyword .inKw => if allowIn then 7 else 0
  | .punctuation .lessThanLessThan | .punctuation .greaterThanGreaterThan => 8
  | .punctuation .greaterThanGreaterThanGreaterThan => 8
  | .punctuation .plus | .punctuation .minus => 9
  | .punctuation .asterisk | .punctuation .slash | .punctuation .percent => 10
  | _ => 0

namespace Parser

/-- An operand with an operator that binds more tightly than `above` and the operand behind it, if one follows. -/
def binaryStep (d : Descent) (above : Nat) (allowIn : Bool) (left : Node) : Parser (Option Node) := do
  let precedence := (← kind).precedence allowIn
  if above < precedence then
    some <$> nodeAfter .binaryExpression [.node left] [current, inner (d.parse (.binary precedence allowIn))]
  else return none

/-- Operands with operators that bind more tightly than `above`. -/
def binary (d : Descent) (above : Nat) (allowIn : Bool) : Parser Node := do
  grow d (binaryStep d above allowIn) (← d.parse .unary)

/-- A condition with both its branches, or an expression with binary operators. -/
def conditional (d : Descent) (allowIn : Bool) : Parser Node := do
  let condition ← d.parse (.binary 0 allowIn)
  if ← seesMark .question then
    nodeAfter .conditionalExpression [.node condition]
      [mark .question, inner (d.parse (.assignment true)), mark .colon, inner (d.parse (.assignment allowIn))]
  else return condition

/-- An expression without commas outside parentheses. -/
def assignment (d : Descent) (allowIn : Bool) : Parser Node := nested do
  match ← arrowFunction? d allowIn with
  | some arrow => return arrow
  | none =>
    let left ← conditional d allowIn
    if (← kind).isAssignment then
      nodeAfter .binaryExpression [.node left] [current, inner (d.parse (.assignment allowIn))]
    else return left

end Parser

end Downlevel

import Downlevel.Grammar.Expressions
/-!
# Grammar.Statements — statements and the declarations that may stand among them
-/
namespace Downlevel.Parser

/-! ## Variables and functions -/

/-- The type and the value of a variable with the given name. -/
def declaratorAfter (d : Descent) (name : Slot) (allowIn : Bool) : Parser Node :=
  nodeAfter .variableDeclarator [name] [typeClause d, initializer d allowIn]

/-- A variable with its type and value. -/
def declarator (d : Descent) (allowIn : Bool) : Parser Node := do declaratorAfter d (← name) allowIn

/-- The word `var` and variables. -/
def variableDeclaration (d : Descent) (allowIn : Bool) : Parser Node :=
  node .variableDeclaration [word .varKw, commaList d (declarator d allowIn)]

/-- Variables, given the words in front of `var`. -/
def variableStatement (d : Descent) (modifiers : List Slot) : Parser Node :=
  nodeAfter .variableStatement modifiers [inner (variableDeclaration d true), statementEnd]

/-- The two slots of a body that may be left out: a block, or the end of the declaration. -/
def bodyOrEnd (d : Descent) : Parser (List Slot) := do
  if ← seesMark .openBrace then parts [inner (block d), nothing] else parts [nothing, statementEnd]

/-- A node whose last two slots are a body that may be left out. -/
def nodeWithBody (d : Descent) (kind : NodeKind) (before : List Slot) (rest : List Part) : Parser Node := do
  let slots ← parts rest
  let body ← bodyOrEnd d
  Node.fresh kind (before ++ slots ++ body)

/-- A function with a name, given the words in front of `function`. -/
def functionDeclaration (d : Descent) (modifiers : List Slot) : Parser Node :=
  nodeWithBody d .functionDeclaration modifiers [word .functionKw, name, inner (callSignature d)]

/-- The slots of two words that are left out. -/
def noModifiers : List Slot := [.absent, .absent]

/-! ## Statements -/

/-- A statement within another one. -/
def substatement (d : Descent) : Part := inner (d.parse .statement)

def whole (d : Descent) : Part := inner (expression d true)

/-- The label of a jump, if one follows on the same line. -/
def jumpLabel : Part := do
  let r ← here
  if r.kind = .identifier && !r.startsLine then current else nothing

/-- The form `else statement`. -/
def elseClause (d : Descent) : Parser Node := node .elseClause [word .elseKw, substatement d]

/-- The end of a loop whose test stands behind, where a semicolon may always be left out. -/
def looseEnd : Part := do
  if ← seesMark .semicolon then current else Slot.token <$> emptySemicolon

/-- A declaration of more than one variable. -/
def declaresSeveral : Slot → Bool
  | .node (.mk _ .variableDeclaration [_, .separated members _]) => members.length != 1
  | _ => false

/-- What stands in front of the first semicolon, or of `in`, in the head of a loop: the slots of a declaration and of an
expression, at most one of which is filled. -/
def loopStart (d : Descent) : Parser (List Slot) := do
  let r ← here
  if r.kind = .keyword .varKw then parts [inner (variableDeclaration d false), nothing]
  else if r.kind = .punctuation .semicolon then parts [nothing, nothing]
  else parts [nothing, inner (expression d false)]

/-- A loop over numbers or over the names of members. -/
def forStatement (d : Descent) : Parser Node := do
  let head ← parts [word .forKw, mark .openParen]
  let start ← loopStart d
  if ← seesWord .inKw then
    if start.any declaresSeveral then fault .severalForInVariables
    nodeAfter .forInStatement (head ++ start) [word .inKw, whole d, mark .closeParen, substatement d]
  else
    nodeAfter .forStatement (head ++ start)
      [mark .semicolon, innerIf (fun r => r.kind != .punctuation .semicolon) (expression d true), mark .semicolon,
        innerIf (fun r => r.kind != .punctuation .closeParen) (expression d true), mark .closeParen, substatement d]

/-- The value of a `return`, if one follows on the same line. -/
def returned (d : Descent) : Part :=
  innerIf (fun r => r.kind != .punctuation .semicolon && !r.mayEndStatement) (expression d true)

/-- An expression that must start on the line of the word in front. -/
def onSameLine (d : Descent) : Part := do
  if (← here).startsLine then fault .lineBreakAfterThrow else whole d

/-- The form `catch (name) block`. -/
def catchClause (d : Descent) : Parser Node :=
  node .catchClause [word .catchKw, mark .openParen, name, mark .closeParen, inner (block d)]

/-- The form `finally block`. -/
def finallyClause (d : Descent) : Parser Node := node .finallyClause [word .finallyKw, inner (block d)]

/-- The end of a `try` whose handlers were read: one of them at least must be there. -/
def handlers (d : Descent) : Parser (List Slot) := do
  let slots ← parts [innerIfWord .catchKw (catchClause d), innerIfWord .finallyKw (finallyClause d)]
  if slots.all (fun slot => slot.node?.isNone) then expected .handler else return slots

/-- A block with its handlers. -/
def tryStatement (d : Descent) : Parser Node := do
  let slots ← parts [word .tryKw, inner (block d)]
  let handled ← handlers d
  Node.fresh .tryStatement (slots ++ handled)

/-- The place is behind the statements of a clause of a `switch`. -/
def atClauseEnd (r : Reading) : Bool := atBlockEnd r || r.kind == .keyword .caseKw || r.kind == .keyword .defaultKw

/-- The statements of a clause of a `switch`. -/
def clauseStatements (d : Descent) : Part := Slot.list <$> membersUntil atClauseEnd (d.parse .statement) d.loop

/-- A clause of a `switch`. -/
def switchClause (d : Descent) : Parser Node := do
  match ← kind with
  | .keyword .caseKw => node .caseSwitchClause [word .caseKw, whole d, mark .colon, clauseStatements d]
  | .keyword .defaultKw => node .defaultSwitchClause [word .defaultKw, mark .colon, clauseStatements d]
  | _ => expected .switchClause

/-- The clauses of a `switch` up to the closing brace. -/
def switchClauses (d : Descent) : Part :=
  Slot.list <$> membersUntil (fun r => r.kind == .punctuation .closeBrace) (switchClause d) d.loop

def wordStatement (d : Descent) : Keyword → Option (Parser Node)
  | .varKw => variableStatement d noModifiers
  | .functionKw => functionDeclaration d noModifiers
  | .ifKw =>
    node .ifStatement
      [word .ifKw, mark .openParen, whole d, mark .closeParen, substatement d, innerIfWord .elseKw (elseClause d)]
  | .doKw =>
    node .doStatement
      [word .doKw, substatement d, word .whileKw, mark .openParen, whole d, mark .closeParen, looseEnd]
  | .whileKw =>
    node .whileStatement [word .whileKw, mark .openParen, whole d, mark .closeParen, substatement d]
  | .forKw => forStatement d
  | .breakKw => node .breakStatement [word .breakKw, jumpLabel, statementEnd]
  | .continueKw => node .continueStatement [word .continueKw, jumpLabel, statementEnd]
  | .returnKw => node .returnStatement [word .returnKw, returned d, statementEnd]
  | .throwKw => node .throwStatement [word .throwKw, onSameLine d, statementEnd]
  | .tryKw => tryStatement d
  | .switchKw =>
    node .switchStatement
      [word .switchKw, mark .openParen, whole d, mark .closeParen, mark .openBrace, switchClauses d, mark .closeBrace]
  | .withKw => node .withStatement [word .withKw, mark .openParen, whole d, mark .closeParen, substatement d]
  | .debuggerKw => node .debuggerStatement [word .debuggerKw, statementEnd]
  | _ => none

def expressionStatement (d : Descent) : Parser Node := node .expressionStatement [whole d, statementEnd]

def statement (d : Descent) : Parser Node := nested do
  let r ← here
  match r.kind with
  | .punctuation .openBrace => block d
  | .punctuation .semicolon => node .emptyStatement [current]
  | .keyword k => (wordStatement d k).getD (expressionStatement d)
  | .identifier =>
    if r.nextIs (.punctuation .colon) then node .labeledStatement [name, mark .colon, substatement d]
    else expressionStatement d
  | _ => expressionStatement d

end Downlevel.Parser

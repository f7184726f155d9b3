import Downlevel.Lowering.Parameters
/-!
# Lowering.Functions — functions and accessors

A function has a `this` of its own.  What its parameters leave to do, and the variable for a captured `this`, stand at
the top of its body.  A statement that would start with `function` without declaring one gets parentheses.
-/
namespace Downlevel.LoweringContext

variable (c : LoweringContext)

/-- Statements with a captured `this` in front, if there is one. -/
def withCapture (captured : Bool) (bodyColumn : Nat) (statements : List Node) : Fresh (List Node) := do
  if captured then return (← c.captureStatement bodyColumn) :: statements else return statements

/-- Lowers the parameters and the body of a function whose line starts at `column`. -/
def functionLike (parameters : Node) (resultType : Option Node) (block : Node) (column : Nat) :
    Lowering (Node × Node) := do
  let bodyColumn := column + c.indentSize
  let ((parameters, prologue, lowered), captured) ← Lowering.inScope do
    let (parameters, facts) ← parameterList parameters resultType
    let prologue ← c.parameterPrologue facts bodyColumn
    return (parameters, prologue, ← c.lower block)
  let prologue ← c.withCapture captured bodyColumn prologue
  return (parameters, ← c.assembleBlock lowered prologue bodyColumn column)

/-- A function with a name, without `export`; one that is ambient or has no body is dropped. -/
def functionDeclaration (n : Node) : Lowering Replacement := do
  let function ← Lowering.view FunctionDeclaration n
  if function.declared.isSome then return .removed
  match function.block with
  | none => return .removed
  | some block =>
    let signature ← Lowering.view CallSignature function.signature
    let (parameters, lowered) ←
      c.functionLike signature.parameters signature.resultType block (c.lineIndentationOf n)
    if function.exported.isNone && parameters.isSame signature.parameters && lowered.isSame block then
      return .one n
    let keyword ← match function.exported with
      | some exported => function.keyword.withLeading (exported.leadingWithout function.keyword.leading)
      | none => pure function.keyword
    let signature ← Build.callSignature parameters
    return .one (← NodeView.toNode
      (FunctionDeclaration.mk none none keyword function.name signature (some lowered) function.semicolon))

def functionExpression (n : Node) : Lowering Replacement := do
  let function ← Lowering.view FunctionExpression n
  let signature ← Lowering.view CallSignature function.signature
  let (parameters, block) ←
    c.functionLike signature.parameters signature.resultType function.block (c.lineIndentationOf n)
  if parameters.isSame signature.parameters && block.isSame function.block then return .one n
  let signature ← Build.callSignature parameters
  return .one (← NodeView.toNode (FunctionExpression.mk function.keyword function.name signature block))

/-! ## Accessors of object literals -/

/-- The body of an accessor with a captured `this` at its top, if there is one. -/
def accessorBody (n block : Node) (captured : Bool) : Lowering Node := do
  if !captured then return block
  let column := c.lineIndentationOf n
  let bodyColumn := column + c.indentSize
  c.assembleBlock block [← c.captureStatement bodyColumn] bodyColumn column

/-- A getter of an object literal that was walked through. -/
def objectGetter (n walked : Node) (captured : Bool) : Lowering Replacement := do
  let accessor ← Lowering.view ObjectGetter walked
  let before ← Lowering.view ObjectGetter n
  if before.resultType.isNone && !captured then return .one walked
  let closeParen ← match before.resultType with
    | some annotation =>
      accessor.closeParen.withTrailing (before.closeParen.trailing.afterErasure annotation.trailing)
    | none => pure accessor.closeParen
  let resultType := if before.resultType.isSome then none else accessor.resultType
  let block ← c.accessorBody n accessor.block captured
  return .one (← NodeView.toNode { accessor with closeParen, resultType, block })

/-- A setter of an object literal that was walked through. -/
def objectSetter (n walked : Node) (captured : Bool) : Lowering Replacement := do
  if !captured then return .one walked
  let accessor ← Lowering.view ObjectSetter walked
  let block ← c.accessorBody n accessor.block captured
  return .one (← NodeView.toNode { accessor with block })

/-- A getter or setter of an object literal. -/
def objectAccessor (n : Node) : Lowering Replacement := do
  let (walked, captured) ← Lowering.inScope (c.walk n)
  if walked.kind = .getAccessorPropertyAssignment then c.objectGetter n walked captured
  else c.objectSetter n walked captured

/-! ## Statements -/

/-- An expression in parentheses, with the trivia at its edges outside of them. -/
def parenthesize (expression : Node) : Fresh Node := do
  (← Build.parenthesized (← expression.bare)).withTrivia expression.leading expression.trailing

/-- An expression that is a statement; if it starts with `function` now, it gets parentheses. -/
def expressionStatement (n : Node) : Lowering Replacement := do
  let walked ← c.walk n
  let statement ← Lowering.view ExpressionStatement walked
  if !(statement.expression.firstToken?.any (fun t => t.kind == .keyword .functionKw)) then return .one walked
  let expression ← parenthesize statement.expression
  return .one (← NodeView.toNode (ExpressionStatement.mk expression statement.semicolon))

end Downlevel.LoweringContext

import Downlevel.Lowering.Functions
/-!
# Lowering.Arrows — arrow functions as function expressions

An expression body becomes a block with one `return`, a level below the line on which the arrow function starts.  The
lines of the expression keep their distance from its first token, or, where the expression has a line of its own, from
the start of the arrow function.  Comments between the arrow and the body stand on lines of their own above `return`,
where none of them can part it from its operand.
-/
namespace Downlevel.LoweringContext

variable (c : LoweringContext)

/-- The word `return` and the space behind it. -/
def returnLead : Nat := "return ".length

/-- The parts of an arrow function, its parameters lowered. -/
structure ArrowParts where
  parameters : Node
  facts : ParameterFacts
  arrow : Token
  body : Node

/-- The body of an arrow function whose body is a block. -/
def arrowBlock (n : Node) (parts : ArrowParts) (column : Nat) : Lowering Node := do
  let bodyColumn := column + c.indentSize
  let prologue ← c.parameterPrologue parts.facts bodyColumn
  let block ← c.lower parts.body
  let block ← c.reindent block false ((column : Int) - (c.lineIndentationOf n : Int))
  c.assembleBlock block prologue bodyColumn column

/-- How far the lines of an expression body move. -/
def arrowShift (n : Node) (parts : ArrowParts) (bodyColumn : Nat) : Int :=
  if parts.arrow.trailing.hasNewLine then (bodyColumn : Int) - (c.columnOf n : Int)
  else (bodyColumn + returnLead : Nat) - (c.columnOf parts.body : Int)

/-- The block in place of an expression body. -/
def arrowExpression (n : Node) (parts : ArrowParts) (column : Nat) : Lowering Node := do
  let bodyColumn := column + c.indentSize
  let prologue ← c.parameterPrologue parts.facts bodyColumn
  let delta := c.arrowShift n parts bodyColumn
  -- A function within that starts on this line is laid out as if the line had moved already.
  let expression ← c.lowerAtLine parts.body ((bodyColumn : Int) - delta).toNat
  let comments := parts.arrow.trailing ++ expression.leading
  let trailing := expression.trailing
  let expression ← c.reindent (← expression.bare) false delta
  let returned ← Build.returnStatement (some expression)
  let returned ← returned.withTrivia (comments.commentLines bodyColumn c.layout) c.newLine
  let statements ← c.placeStatements bodyColumn prologue
  let closeBrace ← (← Build.closeBrace (c.indentation column)).withTrailing trailing
  Build.block (← Build.openBrace c.newLine) (statements ++ [returned]) closeBrace

/-- What stands between the parameters and the body: the trivia behind the parameters and the comments behind the arrow
of a block, or one space. -/
def arrowSeparator (parts : ArrowParts) : TriviaList :=
  let behind :=
    if parts.body.kind == .block && parts.arrow.trailing.hasComment then
      parts.parameters.trailing ++ parts.arrow.trailing
    else parts.parameters.trailing
  if behind.isEmpty then Build.oneSpace else behind

/-- The function expression in place of an arrow function. -/
def arrowFunction (n : Node) (parts : ArrowParts) : Lowering Replacement := do
  let column ← c.laidOutIndentationOf n
  let parameters ← parts.parameters.withTrivia .empty (arrowSeparator parts)
  let block ← Lowering.inArrow
    (if parts.body.kind = .block then c.arrowBlock n parts column else c.arrowExpression n parts column)
  let keyword ← (← Build.wordThenSpace .functionKw).withLeading n.leading
  let signature ← Build.callSignature parameters
  return .one (← NodeView.toNode (FunctionExpression.mk keyword none signature block))

/-- An arrow function with one bare parameter. -/
def simpleArrow (n : Node) : Lowering Replacement := do
  let arrow ← Lowering.view SimpleArrow n
  let parameters ← Build.parameterList [← Build.parameter (← arrow.parameter.bare)]
  let parameters ← parameters.withTrailing arrow.parameter.trailing
  c.arrowFunction n ⟨parameters, .none, arrow.arrow, arrow.body⟩

/-- An arrow function with a signature. -/
def parenthesizedArrow (n : Node) : Lowering Replacement := do
  let arrow ← Lowering.view ParenthesizedArrow n
  let signature ← Lowering.view CallSignature arrow.signature
  let (parameters, facts) ← parameterList signature.parameters signature.resultType
  c.arrowFunction n ⟨parameters, facts, arrow.arrow, arrow.body⟩

end Downlevel.LoweringContext

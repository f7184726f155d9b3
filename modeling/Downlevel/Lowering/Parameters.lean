import Downlevel.Lowering.Erasure
/-!
# Lowering.Parameters — parameters reduced to their names

A list of parameters loses types, default values and the rest parameter.  What the body of the function has to do in
their place is collected in `ParameterFacts`; `parameterPrologue` writes the statements: `if (typeof p === "undefined")
{ p = value; }` for a default value, and a loop over `arguments` for the rest parameter.
-/
namespace Downlevel

/-- A parameter with a default value. -/
structure DefaultValue where
  name : Token
  value : Node

/-- The parameter that takes all arguments from an index on. -/
structure RestParameter where
  name : Token
  index : Nat

/-- What a list of parameters leaves for the body to do. -/
structure ParameterFacts where
  defaults : List DefaultValue
  rest : Option RestParameter
  /-- Parameters that are fields of the object too. -/
  properties : List Token

/-- Nothing is left for the body. -/
def ParameterFacts.none : ParameterFacts := ⟨[], .none, []⟩

/-- Lowered parameters, what they leave for the body, and whether they differ from what was there. -/
structure LoweredParameters where
  parameters : List Node
  facts : ParameterFacts
  changed : Bool

namespace LoweringContext

variable (c : LoweringContext)

/-! ## Parameter lists -/

/-- A parameter reduced to its name, with the trivia around it. -/
def eraseParameter (n : Node) : Lowering Node := do
  let p ← Lowering.view Parameter n
  let hasSuffix := p.question.isSome || p.type.isSome || p.value.isSome
  let hasPrefix := p.dots.isSome || p.access.isSome
  if !hasSuffix && !hasPrefix then return n
  let modifiers := [p.access, p.dots].filterMap id
  let leading := modifiers.foldl (fun leading modifier => modifier.leadingWithout leading) p.name.leading
  let trailing := if hasSuffix then p.name.trailing.afterErasure n.trailing else p.name.trailing
  Build.parameter (← p.name.withTrivia leading trailing)

/-- The default value of a parameter, if it has one. -/
def defaultValue? (p : Parameter) : Lowering (List DefaultValue) := do
  match ← Lowering.viewOption EqualsValueClause p.value with
  | some clause => return [⟨← p.name.bare, clause.value⟩]
  | none => return []

/-- The name of a parameter that is a field too. -/
def property? (p : Parameter) : Fresh (List Token) := do
  if p.access.isSome then return [← p.name.bare] else return []

/-- Lowers parameters, the first of which has the given index.  What follows the rest parameter is dropped. -/
def parametersFrom : Nat → List Node → Lowering LoweredParameters
  | _, [] => return ⟨[], .none, false⟩
  | index, n :: ns => do
    let p ← Lowering.view Parameter n
    if p.dots.isSome then return ⟨[], ⟨[], some ⟨← p.name.bare, index⟩, []⟩, true⟩
    let defaults ← defaultValue? p
    let properties ← property? p
    let erased ← eraseParameter n
    let rest ← parametersFrom (index + 1) ns
    return ⟨erased :: rest.parameters,
      ⟨defaults ++ rest.facts.defaults, rest.facts.rest, properties ++ rest.facts.properties⟩,
      !erased.isSame n || rest.changed⟩

/-- A list of parameters without types, default values and rest parameter.  The trivia behind the type of the result,
which follows the list, moves behind the closing parenthesis. -/
def parameterList (list : Node) (resultType : Option Node) : Lowering (Node × ParameterFacts) := do
  let view ← Lowering.view ParameterList list
  let lowered ← parametersFrom 0 view.parameters.members
  if !(resultType.isSome || lowered.changed) then return (list, lowered.facts)
  let separators := view.parameters.separators.take (lowered.parameters.length - 1)
  let closeParen ← match resultType with
    | some annotation => view.closeParen.withTrailing (view.closeParen.trailing.afterErasure annotation.trailing)
    | none => pure view.closeParen
  let list ← NodeView.toNode (ParameterList.mk view.openParen ⟨lowered.parameters, separators⟩ closeParen)
  return (list, lowered.facts)

/-! ## What the body does -/

/-- What stands in front of the value in the statement that sets a default value. -/
def defaultValueLead (name : List Char) : List Char :=
  "if (typeof ".toList ++ name ++ " === \"undefined\") \x7b ".toList ++ name ++ " = ".toList

/-- The test that a parameter was given no argument. -/
def isUndefined (name : Token) : Fresh Node := do
  let operand ← Build.prefixUnary (.keyword .typeOfKw) (← Build.nameExpression name)
  Build.binary operand (.punctuation .equalsEqualsEquals) (← Build.stringLiteral "undefined".toList)

/-- The statement that sets a parameter to a value if it was given no argument. -/
def setDefault (name : Token) (value : Node) : Fresh Node := do
  let condition ← isUndefined name
  let assignment ← Build.expressionStatement (← Build.assignment (← Build.nameExpression name) value)
  let assignment ← assignment.withTrailing Build.oneSpace
  let block ← Build.block (← Build.markThenSpace .openBrace) [assignment] (← Build.mark .closeBrace)
  Build.ifStatement condition block

/-- The statement that sets the default value of a parameter. -/
def defaultValueStatement (bodyColumn : Nat) (d : DefaultValue) : Lowering Node := do
  let value ← (← c.lower d.value).bare
  let column := bodyColumn + (defaultValueLead d.name.text).length
  let value ← c.reindent value false ((column : Int) - (c.columnOf d.value : Int))
  c.statementAt bodyColumn (← setDefault d.name value)

def argumentCounter : Fresh Node := Build.name "_i".toList

/-- The statement that copies one argument into the rest parameter. -/
def copyArgument (rest : RestParameter) : Fresh Node := do
  let target ←
    if rest.index = 0 then argumentCounter
    else do
      Build.binary (← argumentCounter) (.punctuation .minus) (← Build.numericLiteral (Text.ofNat rest.index))
  let left ← Build.elementAccess (← Build.nameExpression rest.name) target
  let right ← Build.elementAccess (← Build.name "arguments".toList) (← argumentCounter)
  Build.expressionStatement (← Build.assignment left right)

/-- The loop over the arguments that the rest parameter takes, with the given body. -/
def argumentLoop (index : Nat) (body : Node) : Fresh Node := do
  let first ← Build.numericLiteral (Text.ofNat index)
  let declaration ← Build.variableDeclaration (← Build.identifier "_i".toList) (some first)
  let count ← Build.memberPath (← Build.name "arguments".toList) ["length".toList]
  let condition ← Build.binary (← argumentCounter) (.punctuation .lessThan) count
  let step ← Build.postfixUnary (← argumentCounter) (.punctuation .plusPlus)
  Node.fresh .forStatement
    [.token (← Build.wordThenSpace .forKw), .token (← Build.mark .openParen), .node declaration, .absent,
      .token (← Build.markThenSpace .semicolon), .node condition, .token (← Build.markThenSpace .semicolon),
      .node step, .token (← Build.markThenSpace .closeParen), .node body]

def restStatements (bodyColumn : Nat) (rest : RestParameter) : Fresh (List Node) := do
  let declaration ← Build.variableStatement rest.name (some (← Build.arrayLiteral []))
  let copy ← c.statementAt (bodyColumn + c.indentSize) (← copyArgument rest)
  let body ← Build.block (← Build.openBrace c.newLine) [copy] (← Build.closeBrace (c.indentation bodyColumn))
  return [← c.statementAt bodyColumn declaration, ← c.statementAt bodyColumn (← argumentLoop rest.index body)]

/-- The statements that run in front of a body: default values, then the rest parameter. -/
def parameterPrologue (facts : ParameterFacts) (bodyColumn : Nat) : Lowering (List Node) := do
  let defaults ← facts.defaults.mapM (c.defaultValueStatement bodyColumn)
  match facts.rest with
  | some rest => return defaults ++ (← c.restStatements bodyColumn rest)
  | none => return defaults

end LoweringContext

end Downlevel

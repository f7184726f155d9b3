import Downlevel.Lowering.Functions
/-!
# Lowering.Members — members of objects, and the wrapper around a body

A member whose name is a string or a number is reached with brackets, any other with a dot.  Classes, enums and
namespaces become a call of a function in parentheses that stands around their body.
-/
namespace Downlevel.LoweringContext

variable (c : LoweringContext)

/-- The member of a receiver that has the given name. -/
def memberTarget (receiver : Node) (name : Token) : Fresh Node := do
  if name.kind = .string ∨ name.kind = .number then
    Build.elementAccess receiver (← Build.literal (← name.bare))
  else Build.memberAccess receiver (← name.bare)

/-- The form `target = assigned;`. -/
def assignmentStatement (target assigned : Node) : Fresh Node := do
  Build.expressionStatement (← Build.assignment target assigned)

/-- The form `receiver.name = name;`. -/
def assignSameName (receiver : Node) (name : Token) : Fresh Node := do
  assignmentStatement (← Build.memberAccess receiver name) (← Build.nameExpression name)

/-- The form `target || (assignee = {})`. -/
def orCreate (target assignee : Node) : Fresh Node := do
  let created ← Build.parenthesized (← Build.assignment assignee (← Build.emptyObject))
  Build.binary target (.punctuation .barBar) created

/-- The call of a function that stands around a body: `(function (parameters) block)(arguments)`. -/
def wrapperCall (parameters : List Node) (block : Node) (arguments : List Node) : Fresh Node := do
  let function ← Build.functionExpression (← Build.parameterList parameters) block
  Build.invocation (← Build.parenthesized function) arguments

def bodyBlock (openBrace closeBrace : Token) (statements : List Node) (column : Nat) : Fresh Node := do
  let opened ← Build.openBrace (c.lineEnd openBrace.trailing)
  Build.block opened statements (← Build.closeBrace (c.closingBraceLeading closeBrace column 0))

end Downlevel.LoweringContext

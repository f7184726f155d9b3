import Downlevel.Lowering.Members
import Downlevel.Tree.Facts
/-!
# Lowering.Namespaces — namespaces as functions that fill in an object

A namespace becomes a variable and a function around its body, with `X || (X = {})` for its argument, so that a later
namespace of the same name adds to the same object.  A dotted name has one such wrapper for each part.  What is exported
is attached to the innermost object behind the body.  A namespace whose body holds types only is dropped.
-/
namespace Downlevel

def exportedName (exported : Option Token) (name : Token) : Fresh (List Token) := do
  if exported.isSome then return [← name.bare] else return []

/-- The names that a module element exports. -/
def Node.exportedNames (n : Node) : Fresh (List Token) := do
  match n.kind with
  | .variableStatement =>
    match n.view? VariableStatement with
    | some statement =>
      if statement.exported.isNone then return []
      match statement.declaration.view? VariableDeclaration with
      | some declaration =>
        (declaration.declarators.members.filterMap (fun d => d.view? VariableDeclarator)).mapM (fun d => d.name.bare)
      | none => return []
    | none => return []
  | .functionDeclaration =>
    match n.view? FunctionDeclaration with
    | some function => exportedName function.exported function.name
    | none => return []
  | .classDeclaration =>
    match n.view? ClassDeclaration with
    | some view => exportedName view.exported view.name
    | none => return []
  | .enumDeclaration =>
    match n.view? EnumDeclaration with
    | some declaration => exportedName declaration.exported declaration.name
    | none => return []
  | .moduleDeclaration =>
    match n.view? ModuleDeclaration with
    | some declaration =>
      match declaration.name.nameParts with
      | first :: _ => exportedName declaration.exported first
      | [] => return []
    | none => return []
  | _ => return []

namespace LoweringContext

variable (c : LoweringContext)

/-- Statements with their lines moved, each starting a line. -/
def reindentAll (shift : Int) : List Node → Lowering (List Node)
  | [] => return []
  | n :: ns => do
    let n ← c.reindent n true shift
    return n :: (← reindentAll shift ns)

/-- The lowered elements of a namespace with their lines moved, and the names they export. -/
def moduleElements (shift : Int) : List Node → Lowering (List Node × List Token)
  | [] => return ([], [])
  | n :: ns => do
    let lowered := (← c.visit n).nodes
    let names ← if lowered.isEmpty then pure [] else n.exportedNames
    let lowered ← c.reindentAll shift lowered
    let (statements, exported) ← moduleElements shift ns
    return (lowered ++ statements, names ++ exported)

/-- The statement that attaches an exported name to the object of its namespace. -/
def attachName (inner name : Token) : Fresh Node := do assignSameName (← Build.nameExpression inner) name

/-- The member `parent.name`. -/
def memberOf (parent name : Token) : Fresh Node := do Build.memberAccess (← Build.nameExpression parent) name

/-- The object that the wrapper of a namespace works on. -/
def wrapperArgument (name : Token) : Option Token → Fresh Node
  | none => do orCreate (← Build.nameExpression name) (← Build.nameExpression name)
  | some parent => do
    Build.assignment (← Build.nameExpression name) (← orCreate (← memberOf parent name) (← memberOf parent name))

/-- The variable of a namespace, the call of its wrapper, and the statement that attaches it to the namespace around
it. -/
def namespaceWrapper (name : Token) (parent : Option Token) (block : Node) (column : Nat) : Fresh (List Node) := do
  let declaration ← c.statementAt column (← Build.variableStatement name none)
  let call ← wrapperCall [← Build.parameter name] block [← wrapperArgument name parent]
  let call ← c.statementAt column (← Build.expressionStatement call)
  match parent with
  | none => return [declaration, call]
  | some parent => return [declaration, call, ← c.statementAt column (← attachName parent name)]

/-- The block of one wrapper; the braces of the innermost one stand for those of the declaration. -/
def levelBlock (declaration : ModuleDeclaration) (innermost : Bool) (shift : Int) (column : Nat)
    (statements : List Node) : Fresh Node := do
  let openTrailing := if innermost then c.lineEnd declaration.openBrace.trailing else c.newLine
  let closeLeading :=
    if innermost then c.closingBraceLeading declaration.closeBrace column shift else c.indentation column
  Build.block (← Build.openBrace openTrailing) statements (← Build.closeBrace closeLeading)

/-- The statements of a namespace wrapped in one function for each part of its name, the outermost part at `column`;
`innermost` are the statements of the body. -/
def wrapLevels (declaration : ModuleDeclaration) (shift : Int) (innermost : List Node) :
    Option Token → Nat → List Token → Fresh (List Node)
  | _, _, [] => return innermost
  | parent, column, part :: parts => do
    let statements ← wrapLevels declaration shift innermost (some part) (column + c.indentSize) parts
    let block ← c.levelBlock declaration parts.isEmpty shift column statements
    c.namespaceWrapper part parent block column

/-- The statements with other trivia in front of the first and behind the last. -/
def atEdges (leading trailing : TriviaList) : List Node → Fresh (List Node)
  | [] => return []
  | n :: ns => do endWith trailing ((← n.withLeading leading) :: ns)
where
  /-- The statements with other trivia behind the last. -/
  endWith (trailing : TriviaList) : List Node → Fresh (List Node)
    | [] => return []
    | [n] => return [← n.withTrailing trailing]
    | n :: ns => return n :: (← endWith trailing ns)

/-- The parts of the name of a namespace; too many or none are a fault. -/
def namespaceParts (n name : Node) : Lowering (List Token) := do
  let parts := name.nameParts
  if parts.isEmpty then Lowering.faultOn .namespaceWithoutName n
  if LoweringFault.maxNameParts < parts.length then Lowering.faultOn .tooManyNameParts n
  parts.mapM (fun part => Work.lift part.bare)

/-- A namespace; an ambient one, and one whose name is a string, is dropped. -/
def moduleDeclaration (n : Node) : Lowering Replacement := do
  let declaration ← Lowering.view ModuleDeclaration n
  if declaration.declared.isSome || declaration.name.kind == .literalExpression then return .removed
  let parts ← namespaceParts n declaration.name
  let column := c.columnOf n
  let shift := c.indentSize * (parts.length - 1)
  let bodyColumn := column + c.indentSize * parts.length
  let ((statements, exported), captured) ← Lowering.inScope (c.moduleElements shift declaration.elements)
  if statements.isEmpty then return .removed
  let attached ← match parts.getLast? with
    | some inner => exported.mapM (fun name => Work.lift (attachName inner name))
    | none => pure []
  let statements ← c.withCapture captured bodyColumn statements
  let statements ← c.placeStatements bodyColumn (statements ++ attached)
  let wrapped ← c.wrapLevels declaration shift statements none column parts
  let leading := declaration.keyword.leadingWithoutExport declaration.exported
  return .many (← atEdges leading (c.lineEnd declaration.closeBrace.trailing) wrapped)

end LoweringContext

end Downlevel

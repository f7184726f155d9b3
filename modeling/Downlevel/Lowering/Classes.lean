import Downlevel.Lowering.Members
import Downlevel.Tree.Facts
/-!
# Lowering.Classes — classes as constructor functions

A class becomes a variable and a function around its body that returns the constructor; a base class is its argument.
The body holds, in this order: the call that sets up inheritance, the constructor, the other members in their order, and
the `return`.  In the constructor stand, in this order: a captured `this`, calls of the base constructor, default
values and the rest parameter, fields declared by parameters, fields with a value, and the rest of the body.
-/
namespace Downlevel

/-- A property with accessors, told by its name and by whether it belongs to the class itself. -/
structure AccessorKey where
  name : List Char
  isStatic : Bool
  deriving DecidableEq, Repr

def Node.accessorKey? (n : Node) : Option AccessorKey :=
  match n.view? MemberGetter, n.view? MemberSetter with
  | some getter, _ => some ⟨getter.name.valueText, getter.isStatic.isSome⟩
  | none, some setter => some ⟨setter.name.valueText, setter.isStatic.isSome⟩
  | none, none => none

/-- The statement is a call of the base constructor. -/
def Node.isSuperCall (n : Node) : Bool :=
  match n.view? ExpressionStatement with
  | some statement =>
    match statement.expression.view? Invocation with
    | some call => call.callee.kind == .superExpression
    | none => false
  | none => false

abbrev HasBase := Bool

namespace LoweringContext

variable (c : LoweringContext)

/-! ## Fields -/

/-- The statement `receiver.field = value;` for a field that has a value. -/
def fieldAssignment (receiver : Fresh Node) (member : Node) (field : MemberVariable) (column : Nat) :
    Lowering (List Node) := do
  let declarator ← Lowering.view VariableDeclarator field.declarator
  match ← Lowering.viewOption EqualsValueClause declarator.value with
  | none => return []
  | some clause =>
    let value ← (← c.lower clause.value).bare
    -- The lines of the value keep their distance from the member.
    let value ← c.reindent value false ((column : Int) - (c.columnOf member : Int))
    let statement ← assignmentStatement (← memberTarget (← receiver) declarator.name) value
    let trailing := c.lineEnd field.semicolon.trailing
    return [← statement.withTrivia (c.relocated member.leading column) trailing]

/-- The statements for the fields of objects that have a value. -/
def instanceFields (column : Nat) : List Node → Lowering (List Node)
  | [] => return []
  | member :: members => do
    let here ← match member.view? MemberVariable with
      | some field =>
        if field.isStatic.isSome then pure [] else c.fieldAssignment Build.thisExpression member field column
      | none => pure []
    return here ++ (← instanceFields column members)

/-- The statement for a field of the class itself that has a value. -/
def staticField (name : Token) (member : Node) (column : Nat) : Lowering (List Node) := do
  let field ← Lowering.view MemberVariable member
  if field.isStatic.isNone then return []
  c.fieldAssignment (Build.nameExpression name) member field column

/-! ## The constructor -/

/-- The statement `this.name = name;` for a parameter that is a field too. -/
def propertyStatement (column : Nat) (name : Token) : Fresh Node := do
  c.statementAt column (← assignSameName (← Build.thisExpression) name)

/-- Lowered statements of a constructor: calls of the base constructor, and the others. -/
def constructorStatements (derived : HasBase) : List Node → Lowering (List Node × List Node)
  | [] => return ([], [])
  | n :: ns => do
    let lowered := (← c.visit n).nodes
    let (calls, others) ← constructorStatements derived ns
    if derived && n.isSuperCall then return (lowered ++ calls, others) else return (calls, lowered ++ others)

/-- The constructor function for a constructor with a body. -/
def constructorFunction (members : List Node) (name : Token) (n block : Node) (parameters : Node)
    (derived : HasBase) (column : Nat) : Lowering Node := do
  let bodyColumn := column + c.indentSize
  -- Default values and fields run in the constructor, so an arrow function in them captures its `this`.
  let ((parameters, prologue, rest), captured) ← Lowering.inScope do
    let (parameters, facts) ← parameterList parameters none
    let view ← Lowering.view Block block
    let (calls, rest) ← c.constructorStatements derived view.statements
    let prologue ← c.parameterPrologue facts bodyColumn
    let properties ← facts.properties.mapM (fun name => Work.lift (c.propertyStatement bodyColumn name))
    let fields ← c.instanceFields bodyColumn members
    return (parameters, calls ++ prologue ++ properties ++ fields, rest)
  let prologue ← c.withCapture captured bodyColumn prologue
  let view ← Lowering.view Block block
  let lowered ← NodeView.toNode { view with statements := rest }
  let block ← c.assembleBlock lowered prologue bodyColumn column
  let keyword ← (← Build.wordThenSpace .functionKw).withLeading (c.relocated n.leading column)
  let signature ← Build.callSignature parameters
  NodeView.toNode (FunctionDeclaration.mk none none keyword name signature (some block) none)

/-- The statement `_super.apply(this, arguments);`. -/
def forwardToBase : Fresh Node := do
  let apply ← Build.memberPath (← Build.name "_super".toList) ["apply".toList]
  Build.expressionStatement
    (← Build.invocation apply [← Build.thisExpression, ← Build.name "arguments".toList])

/-- The constructor function of a class that has no constructor with a body. -/
def synthesizedConstructor (members : List Node) (name : Token) (derived : HasBase) (column : Nat) :
    Lowering Node := do
  let bodyColumn := column + c.indentSize
  let (fields, captured) ← Lowering.inScope (c.instanceFields bodyColumn members)
  let forward ← if derived then do pure [← c.statementAt bodyColumn (← forwardToBase)] else pure []
  let statements ← c.withCapture captured bodyColumn (forward ++ fields)
  let block ← Build.block (← Build.openBrace c.newLine) statements (← Build.closeBrace (c.indentation column))
  c.statementAt column (← Build.functionDeclaration name (← Build.parameterList []) block)

/-- The first constructor that has a body, with its body. -/
def firstConstructor? : List Node → Option (Node × ConstructorDeclaration × Node)
  | [] => none
  | n :: ns =>
    match n.view? ConstructorDeclaration with
    | some view =>
      match view.block with
      | some block => some (n, view, block)
      | none => firstConstructor? ns
    | none => firstConstructor? ns

def classConstructor (members : List Node) (name : Token) (derived : HasBase) (column : Nat) : Lowering Node :=
  match firstConstructor? members with
  | some (n, view, block) => c.constructorFunction members name n block view.parameters derived column
  | none => c.synthesizedConstructor members name derived column

/-! ## Methods and accessors -/

/-- The object that holds a member: the class for a static one, its prototype for any other. -/
def classReceiver (name : Token) (isStatic : Bool) : Fresh Node := do
  let constructor ← Build.nameExpression name
  if isStatic then return constructor
  else Build.memberAccess constructor (← Build.identifier "prototype".toList)

/-- The statement that sets a method; a signature without a body is dropped. -/
def method (name : Token) (member : Node) (column : Nat) : Lowering (List Node) := do
  let function ← Lowering.view MemberFunction member
  match function.block with
  | none => return []
  | some block =>
    let signature ← Lowering.view CallSignature function.signature
    let (parameters, block) ← c.functionLike signature.parameters signature.resultType block column
    let value ← Build.functionExpression parameters (← block.withTrailing .empty)
    let target ← memberTarget (← classReceiver name function.isStatic.isSome) function.name
    let statement ← assignmentStatement target value
    return [← statement.withTrivia (c.relocated member.leading column) (c.lineEnd block.trailing)]

/-- The function in place of an accessor, laid out for a property at a column. -/
def accessorFunction (accessor : Node) (propertyColumn : Nat) : Lowering Node := do
  let (parameters, resultType, block) ← match accessor.view? MemberGetter with
    | some getter => pure (getter.parameters, getter.resultType, getter.block)
    | none => do
      let setter ← Lowering.view MemberSetter accessor
      pure (setter.parameters, none, setter.block)
  let column := c.columnOf accessor
  let (parameters, block) ← c.functionLike parameters resultType block column
  let function ← Build.functionExpression parameters block
  c.reindent function false ((propertyColumn : Int) - (column : Int))

/-- A comma at the end of the line of a property, with the comments that were left over. -/
def separatorLine (comments : TriviaList) : Fresh Token := do
  (← Build.mark .comma).withTrailing (comments.trailingCommentLine c.layout)

/-- A property of a descriptor on a line of its own. -/
def descriptorProperty (column : Nat) (name : String) (value : Node) : Fresh Node := do
  let property ← Build.propertyAssignment (← Build.identifier name.toList) value
  property.withLeading (c.indentation column)

/-- The properties of a descriptor that hold accessors, each with the comments that stood behind it. -/
def accessorProperties (column : Nat) : List (String × Node) → Lowering (List (Node × TriviaList))
  | [] => return []
  | (keyword, accessor) :: rest => do
    let function ← c.accessorFunction accessor column
    let property ← c.descriptorProperty column keyword (← function.withTrailing .empty)
    return (property, function.trailing) :: (← accessorProperties column rest)

/-- A property of a descriptor that is true. -/
def flagProperty (column : Nat) (name : String) : Fresh (Node × TriviaList) := do
  let value ← Build.keywordLiteral (.keyword .trueKw)
  return (← c.descriptorProperty column name value, .empty)

/-- The commas between properties of a descriptor, each behind the comments of the property in front. -/
def descriptorSeparators : List (Node × TriviaList) → Fresh (List Token)
  | (_, comments) :: next :: rest => do
    let separator ← c.separatorLine comments
    return separator :: (← descriptorSeparators (next :: rest))
  | _ => return []

/-- The nodes with other trivia behind the last of them. -/
def withLastTrailing (trailing : TriviaList) : List Node → Fresh (List Node)
  | [] => return []
  | [n] => return [← n.withTrailing trailing]
  | n :: ns => return n :: (← withLastTrailing trailing ns)

def descriptor (accessors : List (String × Node)) (column : Nat) : Lowering Node := do
  let propertyColumn := column + c.indentSize
  let functions ← c.accessorProperties propertyColumn accessors
  let enumerable ← c.flagProperty propertyColumn "enumerable"
  let configurable ← c.flagProperty propertyColumn "configurable"
  let properties := functions ++ [enumerable, configurable]
  let separators ← c.descriptorSeparators properties
  let members ← withLastTrailing c.newLine (properties.map Prod.fst)
  Build.objectLiteral (← Build.openBrace c.newLine) (.separated members separators)
    (← Build.closeBrace (c.indentation column))

/-- The accessors of a property: the first getter and the first setter of that key. -/
def accessorsOf (members : List Node) (key : AccessorKey) : List (String × Node) :=
  let ofKey := members.filter (fun n => n.accessorKey? == some key)
  let getter := ofKey.find? (fun n => n.kind == .getMemberAccessorDeclaration)
  let setter := ofKey.find? (fun n => n.kind == .setMemberAccessorDeclaration)
  (getter.map (fun n => ("get", n))).toList ++ (setter.map (fun n => ("set", n))).toList

/-- The statement that defines a property with accessors, `first` being the first of them. -/
def defineProperty (name : Token) (members : List Node) (first : Node) (key : AccessorKey) (column : Nat) :
    Lowering Node := do
  let descriptor ← c.descriptor (accessorsOf members key) column
  let define ← Build.memberPath (← Build.name "Object".toList) ["defineProperty".toList]
  let receiver ← classReceiver name key.isStatic
  let call ← Build.invocation define [receiver, ← Build.stringLiteral key.name, descriptor]
  let statement ← Build.expressionStatement call
  statement.withTrivia (c.relocated first.leading column) c.newLine

/-! ## The class -/

/-- The statements for a member of a class, given the keys of the accessors in front of it. -/
def classMember (name : Token) (members : List Node) (seen : List AccessorKey) (member : Node) (column : Nat) :
    Lowering (List Node) := do
  match member.kind with
  | .memberFunctionDeclaration => c.method name member column
  | .memberVariableDeclaration => c.staticField name member column
  | _ =>
    match member.accessorKey? with
    | some key =>
      if seen.contains key then return [] else return [← c.defineProperty name members member key column]
    | none => return []

/-- The statements for the members of a class but its constructor. -/
def classMembers (name : Token) (members : List Node) (column : Nat) :
    List AccessorKey → List Node → Lowering (List Node)
  | _, [] => return []
  | seen, member :: rest => do
    let statements ← c.classMember name members seen member column
    let seen := match member.accessorKey? with
      | some key => key :: seen
      | none => seen
    return statements ++ (← classMembers name members column seen rest)

/-- The call that sets up inheritance. -/
def extendsCall (name : Token) : Fresh Node := do
  Build.expressionStatement
    (← Build.invocation (← Build.name "__extends".toList)
      [← Build.nameExpression name, ← Build.name "_super".toList])

/-- The statements of the function around a class: the call that sets up inheritance, and the others. -/
def classBody (view : ClassDeclaration) (name : Token) (derived : HasBase) (column : Nat) :
    Lowering (List Node × List Node) := do
  if derived then Lowering.markDerived
  let inheritance ← if derived then do pure [← c.statementAt column (← extendsCall name)] else pure []
  let constructor ← c.classConstructor view.members name derived column
  let members ← c.classMembers name view.members column [] view.members
  let returned ← c.statementAt column (← Build.returnStatement (some (← Build.nameExpression name)))
  return (inheritance, constructor :: members ++ [returned])

def baseExpression (n : Node) : Lowering Node := do
  let clause ← Lowering.view ExtendsClause n
  match clause.names.members with
  | [] => Lowering.faultOn .extendsNothing n
  | name :: _ =>
    match name.nameParts with
    | [] => Lowering.faultOn .baseWithoutName name
    | first :: rest => do
      let first ← Build.nameExpression (← first.bare)
      Work.lift (rest.foldlM (fun n part => do Build.memberAccess n (← part.bare)) first)

/-- A class; an ambient one is dropped. -/
def classDeclaration (n : Node) : Lowering Replacement := do
  let view ← Lowering.view ClassDeclaration n
  if view.declared.isSome then return .removed
  let name ← view.name.bare
  let column := c.columnOf n
  let bodyColumn := column + c.indentSize
  let base ← view.base.mapM baseExpression
  let ((inheritance, statements), captured) ← Lowering.inScope (c.classBody view name base.isSome bodyColumn)
  let statements ← c.withCapture captured bodyColumn statements
  let statements ← c.placeStatements bodyColumn (inheritance ++ statements)
  let block ← c.bodyBlock view.openBrace view.closeBrace statements column
  let parameters ← if base.isSome then do pure [← Build.parameter (← Build.identifier "_super".toList)] else pure []
  let call ← wrapperCall parameters block base.toList
  let statement ← Build.variableStatement name (some call)
  let leading := view.keyword.leadingWithoutExport view.exported
  return .one (← statement.withTrivia leading (c.lineEnd view.closeBrace.trailing))

end LoweringContext

end Downlevel

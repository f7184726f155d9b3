import Downlevel.Lowering.Program
/-!
# Proofs.Outline.Draft — lowering without layout

What the rules of lowering make of a tree, but for trivia and for which objects are shared.  A `Draft` is told whether
its place lies in an arrow function of its scope; it fails, or has a value and notes what the part around it has to know
(`Marks`): that a `this` was captured, and that a class with a base was lowered.  There is no state, no column and no
test for what has changed, so each rule is the list of what it builds.
-/
namespace Downlevel

/-- What the lowering of a part notes for the part around it. -/
structure Marks where
  /-- An arrow function within refers to the `this` of the scope. -/
  captured : Bool
  /-- A class with a base was lowered. -/
  derived : Bool
  deriving DecidableEq, Repr

/-- Nothing is noted. -/
def Marks.none : Marks := ⟨false, false⟩

/-- What two parts note. -/
def Marks.and (m m' : Marks) : Marks := ⟨m.captured || m'.captured, m.derived || m'.derived⟩

@[simp] theorem Marks.none_and (m : Marks) : Marks.none.and m = m := by cases m; rfl

@[simp] theorem Marks.and_none (m : Marks) : m.and .none = m := by cases m; simp [Marks.and, Marks.none]

theorem Marks.and_assoc (m m' m'' : Marks) : (m.and m').and m'' = m.and (m'.and m'') := by
  simp [Marks.and, Bool.or_assoc]

/-- A part lowered without layout, at a place that lies in an arrow function of its scope or does not. -/
def Draft (α : Type) : Type := Bool → Option (α × Marks)

namespace Draft

variable {α β : Type}

instance : Monad Draft where
  pure a := fun _ => some (a, .none)
  bind d f := fun inArrow =>
    (d inArrow).bind (fun p => ((f p.1) inArrow).map (fun q => (q.1, p.2.and q.2)))

theorem pure_apply (a : α) (inArrow : Bool) : (pure a : Draft α) inArrow = some (a, .none) := rfl

theorem bind_apply (d : Draft α) (f : α → Draft β) (inArrow : Bool) :
    (d >>= f) inArrow = (d inArrow).bind (fun p => ((f p.1) inArrow).map (fun q => (q.1, p.2.and q.2))) := rfl

instance : LawfulMonad Draft := LawfulMonad.mk' Draft
  (fun d => by
    funext inArrow
    show (d inArrow).bind (fun p => some (p.1, p.2.and .none)) = d inArrow
    cases d inArrow <;> simp)
  (fun a f => by
    funext inArrow
    show ((f a) inArrow).map (fun q => (q.1, Marks.none.and q.2)) = f a inArrow
    simp)
  (fun d f g => by
    funext inArrow
    simp only [bind_apply]
    cases d inArrow with
    | none => rfl
    | some p =>
      simp only [Option.bind_some]
      cases f p.1 inArrow with
      | none => rfl
      | some q =>
        simp only [Option.map_some, Option.bind_some, Option.map_map]
        cases g q.1 inArrow with
        | none => rfl
        | some r => simp [Marks.and_assoc])

/-- There is no way to go on. -/
def fail : Draft α := fun _ => .none

/-- Objects are made. -/
def make (w : Fresh α) : Draft α := fun _ => some ((w 0).1, .none)

/-- A node read by the names of its slots. -/
def view (α : Type) [NodeView α] (n : Node) : Draft α :=
  match n.view? α with
  | some view => return view
  | none => fail

/-- A node read by the names of its slots, where there is one. -/
def viewOption (α : Type) [NodeView α] : Option Node → Draft (Option α)
  | some n => some <$> view α n
  | none => return none

/-! ## Scopes of `this` -/

/-- A part with a `this` of its own, and whether an arrow function within refers to it. -/
def inScope (part : Draft α) : Draft (α × Bool) := fun _ =>
  (part false).map (fun p => ((p.1, p.2.captured), ⟨false, p.2.derived⟩))

/-- A part that lies in an arrow function. -/
def inArrow (part : Draft α) : Draft α := fun _ => part true

/-- A class with a base is lowered. -/
def markDerived : Draft Unit := fun _ => some ((), ⟨false, true⟩)

/-- The expression `_this` within an arrow function, which captures it, and the keyword elsewhere. -/
def thisReference (keyword : Token) : Draft Node := fun inArrow =>
  if inArrow then some ((Build.name "_this".toList 0).1, ⟨true, false⟩)
  else some ((NodeView.toNode (ThisExpression.mk keyword) 0).1, .none)

/-! ## Forms -/

/-- The form `function (parameters) block`. -/
def functionExpression (parameterList block : Node) : Fresh Node := do
  let keyword ← Build.wordThenSpace .functionKw
  let signature ← Build.callSignature parameterList
  Node.fresh .functionExpression [.token keyword, .absent, .node signature, .node block]

/-- The form `function name(parameters) block`. -/
def functionDeclaration (identifier : Token) (parameterList block : Node) : Fresh Node := do
  let keyword ← Build.wordThenSpace .functionKw
  let signature ← Build.callSignature parameterList
  Node.fresh .functionDeclaration
    [.absent, .absent, .token keyword, .token identifier, .node signature, .node block, .absent]

def braced (statements : List Node) : Fresh Node := do
  Build.block (← Build.openBrace .empty) statements (← Build.closeBrace .empty)

/-- The call of a function that stands around a body. -/
def wrapperCall (parameters : List Node) (block : Node) (arguments : List Node) : Fresh Node := do
  let function ← functionExpression (← Build.parameterList parameters) block
  Build.invocation (← Build.parenthesized function) arguments

/-- The statement `var _this = this;`. -/
def captureStatement : Fresh Node := do
  let name ← Build.identifier "_this".toList
  Build.variableStatement name (some (← Build.thisExpression))

/-- Statements with a captured `this` in front, if there is one. -/
def withCapture (captured : Bool) (statements : List Node) : Fresh (List Node) := do
  if captured then return (← captureStatement) :: statements else return statements

/-- A block with statements at its top. -/
def assembleBlock (block : Node) (prologue : List Node) : Draft Node := do
  if prologue.isEmpty then return block
  let view ← view Block block
  make (Build.block view.openBrace (prologue ++ view.statements) view.closeBrace)

section Rules

variable (visit : Node → Draft Replacement)

/-! ## Lowering parts -/

/-- The one node that takes a place, or none where none is needed. -/
def single (optional : Bool) : Replacement → Draft (Option Node)
  | .one n => return some n
  | .removed => if optional then return none else fail
  | .many [n] => return some n
  | .many _ => fail

/-- What becomes of the members of a list. -/
def walkList : List Node → Draft (List Node)
  | [] => return []
  | n :: ns => do
    let replacement ← visit n
    return replacement.nodes ++ (← walkList ns)

/-- What becomes of a node that must stay one node. -/
def walkMember (n : Node) : Draft Node := do
  match ← single false (← visit n) with
  | some n' => return n'
  | none => fail

/-- What becomes of what a slot holds. -/
def walkSlot (optional : Bool) : Slot → Draft Slot
  | .absent => return .absent
  | .token t => return .token t
  | .node n => return .ofNode? (← single optional (← visit n))
  | .list members => return .list (← walkList visit members)
  | .separated members separators => return .separated (← members.mapM (walkMember visit)) separators

/-- What becomes of a row of slots, the first of which may be left out where the first shape says so. -/
def walkSlots (parent : NodeKind) : Nat → List Slot → Draft (List Slot)
  | _, [] => return []
  | index, slot :: slots => do
    let slot' ← walkSlot visit (parent.shapes[index]?.any SlotShape.isOptional) slot
    return slot' :: (← walkSlots parent (index + 1) slots)

/-- What becomes of what stands directly in a node. -/
def walk (n : Node) : Draft Node := do
  let slots ← walkSlots visit n.kind 0 n.slots
  make (Node.fresh n.kind slots)

/-- A part that stays one node. -/
def lower (n : Node) : Draft Node := do
  match ← visit n with
  | .one n' => return n'
  | .many [n'] => return n'
  | _ => fail

/-! ## Types and modifiers -/

/-- A statement that declares variables, without `export`; an ambient one is dropped. -/
def variableStatement (n : Node) : Draft Replacement := do
  let statement ← view VariableStatement n
  if statement.declared.isSome then return .removed
  let walked ← walk visit n
  match statement.exported with
  | none => return .one walked
  | some _ =>
    let lowered ← view VariableStatement walked
    return .one (← make (NodeView.toNode (VariableStatement.mk none none lowered.declaration lowered.semicolon)))

/-- A variable without its type. -/
def variableDeclarator (n : Node) : Draft Replacement := do
  let declarator ← view VariableDeclarator n
  match declarator.type with
  | none => return .one (← walk visit n)
  | some _ =>
    let value ← declarator.value.mapM (lower visit)
    return .one (← make (NodeView.toNode (VariableDeclarator.mk declarator.name none value)))

def castExpression (n : Node) : Draft Replacement := do
  let cast ← view Cast n
  return .one (← lower visit cast.expression)

/-! ## Parameters -/

/-- A parameter reduced to its name. -/
def eraseParameter (n : Node) : Draft Node := do
  let p ← view Parameter n
  make (Build.parameter p.name)

/-- The default value of a parameter, if it has one. -/
def defaultValue? (p : Parameter) : Draft (List DefaultValue) := do
  match ← viewOption EqualsValueClause p.value with
  | some clause => return [⟨p.name, clause.value⟩]
  | none => return []

/-- The name of a parameter that is a field too. -/
def property? (p : Parameter) : List Token := if p.access.isSome then [p.name] else []

/-- Parameters, the first of which has the given index, and what they leave for the body. -/
def parametersFrom : Nat → List Node → Draft (List Node × ParameterFacts)
  | _, [] => return ([], .none)
  | index, n :: ns => do
    let p ← view Parameter n
    if p.dots.isSome then return ([], ⟨[], some ⟨p.name, index⟩, []⟩)
    let defaults ← defaultValue? p
    let erased ← eraseParameter n
    let (parameters, facts) ← parametersFrom (index + 1) ns
    return (erased :: parameters, ⟨defaults ++ facts.defaults, facts.rest, property? p ++ facts.properties⟩)

/-- A list of parameters without types, default values and rest parameter. -/
def parameterList (list : Node) : Draft (Node × ParameterFacts) := do
  let view ← view ParameterList list
  let (parameters, facts) ← parametersFrom 0 view.parameters.members
  let separators := view.parameters.separators.take (parameters.length - 1)
  let list ← make (NodeView.toNode (ParameterList.mk view.openParen ⟨parameters, separators⟩ view.closeParen))
  return (list, facts)

/-- The statement that sets a parameter to a value if it was given no argument. -/
def setDefault (name : Token) (value : Node) : Fresh Node := do
  let condition ← LoweringContext.isUndefined name
  let assignment ← Build.expressionStatement (← Build.assignment (← Build.nameExpression name) value)
  let block ← Build.block (← Build.markThenSpace .openBrace) [assignment] (← Build.mark .closeBrace)
  Build.ifStatement condition block

/-- The statement that sets the default value of a parameter. -/
def defaultValueStatement (d : DefaultValue) : Draft Node := do
  let value ← lower visit d.value
  make (setDefault d.name value)

def restStatements (rest : RestParameter) : Fresh (List Node) := do
  let declaration ← Build.variableStatement rest.name (some (← Build.arrayLiteral []))
  let body ← braced [← LoweringContext.copyArgument rest]
  return [declaration, ← LoweringContext.argumentLoop rest.index body]

/-- The statements that run in front of a body: default values, then the rest parameter. -/
def parameterPrologue (facts : ParameterFacts) : Draft (List Node) := do
  let defaults ← facts.defaults.mapM (defaultValueStatement visit)
  match facts.rest with
  | some rest => return defaults ++ (← make (restStatements rest))
  | none => return defaults

/-! ## Functions -/

def functionLike (parameters block : Node) : Draft (Node × Node) := do
  let ((parameters, prologue, lowered), captured) ← inScope do
    let (parameters, facts) ← parameterList parameters
    let prologue ← parameterPrologue visit facts
    return (parameters, prologue, ← lower visit block)
  let prologue ← make (withCapture captured prologue)
  return (parameters, ← assembleBlock lowered prologue)

/-- A function with a name, without `export`; one that is ambient or has no body is dropped. -/
def functionStatement (n : Node) : Draft Replacement := do
  let function ← view FunctionDeclaration n
  if function.declared.isSome then return .removed
  match function.block with
  | none => return .removed
  | some block =>
    let signature ← view CallSignature function.signature
    let (parameters, lowered) ← functionLike visit signature.parameters block
    let signature ← make (Build.callSignature parameters)
    return .one (← make (NodeView.toNode
      (FunctionDeclaration.mk none none function.keyword function.name signature (some lowered) function.semicolon)))

/-- A function that is an expression. -/
def functionValue (n : Node) : Draft Replacement := do
  let function ← view FunctionExpression n
  let signature ← view CallSignature function.signature
  let (parameters, block) ← functionLike visit signature.parameters function.block
  let signature ← make (Build.callSignature parameters)
  return .one (← make (NodeView.toNode (FunctionExpression.mk function.keyword function.name signature block)))

/-- The body of an accessor with a captured `this` at its top, if there is one. -/
def accessorBody (block : Node) (captured : Bool) : Draft Node := do
  if !captured then return block
  assembleBlock block [← make captureStatement]

/-- A getter of an object literal that was walked through. -/
def objectGetter (n walked : Node) (captured : Bool) : Draft Replacement := do
  let accessor ← view ObjectGetter walked
  let before ← view ObjectGetter n
  if before.resultType.isNone && !captured then return .one walked
  let resultType := if before.resultType.isSome then none else accessor.resultType
  let block ← accessorBody accessor.block captured
  return .one (← make (NodeView.toNode { accessor with resultType, block }))

/-- A setter of an object literal that was walked through. -/
def objectSetter (walked : Node) (captured : Bool) : Draft Replacement := do
  if !captured then return .one walked
  let accessor ← view ObjectSetter walked
  let block ← accessorBody accessor.block captured
  return .one (← make (NodeView.toNode { accessor with block }))

/-- A getter or setter of an object literal. -/
def objectAccessor (n : Node) : Draft Replacement := do
  let (walked, captured) ← inScope (walk visit n)
  if walked.kind = .getAccessorPropertyAssignment then objectGetter n walked captured
  else objectSetter walked captured

/-- An expression that is a statement; if it starts with `function` now, it gets parentheses. -/
def expressionStatement (n : Node) : Draft Replacement := do
  let walked ← walk visit n
  let statement ← view ExpressionStatement walked
  if !(statement.expression.tokens.head?.any (fun t => t.kind == .keyword .functionKw)) then return .one walked
  let expression ← make (Build.parenthesized statement.expression)
  return .one (← make (NodeView.toNode (ExpressionStatement.mk expression statement.semicolon)))

/-! ## Arrow functions -/

/-- The body of an arrow function: its block, or a block that returns its expression. -/
def arrowBody (facts : ParameterFacts) (body : Node) : Draft Node := do
  let prologue ← parameterPrologue visit facts
  let lowered ← lower visit body
  if body.kind = .block then assembleBlock lowered prologue
  else do
    let returned ← make (Build.returnStatement (some lowered))
    make (braced (prologue ++ [returned]))

/-- The function expression in place of an arrow function. -/
def arrowFunction (parameters : Node) (facts : ParameterFacts) (body : Node) : Draft Replacement := do
  let block ← inArrow (arrowBody visit facts body)
  return .one (← make (functionExpression parameters block))

/-- An arrow function with one bare parameter. -/
def simpleArrow (n : Node) : Draft Replacement := do
  let arrow ← view SimpleArrow n
  let parameters ← make (do Build.parameterList [← Build.parameter arrow.parameter])
  arrowFunction visit parameters .none arrow.body

/-- An arrow function with a signature. -/
def parenthesizedArrow (n : Node) : Draft Replacement := do
  let arrow ← view ParenthesizedArrow n
  let signature ← view CallSignature arrow.signature
  let (parameters, facts) ← parameterList signature.parameters
  arrowFunction visit parameters facts arrow.body

/-! ## References to the base class -/

/-- The form `_super.prototype`. -/
def superPrototype : Fresh Node := do
  Build.memberAccess (← Build.name "_super".toList) (← Build.identifier "prototype".toList)

/-- The function that a call through `super` calls, if it is one. -/
def superCallee? (callee : Node) : Fresh (Option Node) := do
  match callee.view? SuperExpression, callee.view? MemberAccess with
  | some _, _ => return some (← LoweringContext.callMember (← Build.name "_super".toList))
  | none, some access =>
    match access.expression.view? SuperExpression with
    | some _ => return some (← LoweringContext.callMember (← Build.memberAccess (← superPrototype) access.name))
    | none => return none
  | none, none => return none

/-- The call of `target` with `this` in front of the lowered arguments. -/
def callWithThis (target arguments : Node) : Draft Replacement := do
  let list ← view ArgumentList (← lower visit arguments)
  let this ← thisReference (Build.token (.keyword .thisKw) 0).1
  let comma ← if list.arguments.members.isEmpty then pure [] else do pure [← make (Build.markThenSpace .comma)]
  let passed : SeparatedNodes := ⟨this :: list.arguments.members, comma ++ list.arguments.separators⟩
  let arguments ← make (NodeView.toNode { list with arguments := passed })
  return .one (← make (NodeView.toNode (Invocation.mk target arguments)))

/-- A call. -/
def invocation (n : Node) : Draft Replacement := do
  let call ← view Invocation n
  match ← make (superCallee? call.callee) with
  | some target => callWithThis visit target call.arguments
  | none => return .one (← walk visit n)

def memberAccess (n : Node) : Draft Replacement := do
  let access ← view MemberAccess n
  match access.expression.view? SuperExpression with
  | some _ => return .one (← make (do NodeView.toNode (MemberAccess.mk (← superPrototype) access.dot access.name)))
  | none => return .one (← walk visit n)

/-- The expression `this`. -/
def thisExpression (n : Node) : Draft Replacement := do
  let expression ← view ThisExpression n
  return .one (← thisReference expression.keyword)

/-! ## Enums -/

/-- The value of a member, and what the next member follows. -/
def enumValue (enumName : Token) (e : EnumElement) (previous : PreviousValue) : Draft (Node × PreviousValue) := do
  match ← viewOption EqualsValueClause e.value with
  | none => make (LoweringContext.implicitValue enumName e.name previous)
  | some clause =>
    let value ← lower visit clause.value
    match value.constant? with
    | some x => return (value, .known x)
    | none => return (value, .member e.name)

/-- The statements for the members of an enum. -/
def enumRecords (enumName : Token) : List Node → PreviousValue → Draft (List Node)
  | [], _ => return []
  | n :: ns, previous => do
    match n.view? EnumElement with
    | none => enumRecords enumName ns previous
    | some e =>
      let (value, previous) ← enumValue visit enumName e previous
      let record ← make (LoweringContext.enumRecord enumName e.name value)
      return record :: (← enumRecords enumName ns previous)

/-- An enum; an ambient one is dropped. -/
def enumDeclaration (n : Node) : Draft Replacement := do
  let declaration ← view EnumDeclaration n
  if declaration.declared.isSome then return .removed
  let name := declaration.name
  let start ← make (LoweringContext.reverseMapStart name)
  let records ← enumRecords visit name declaration.members.members (.ordinal 0)
  let block ← make (braced (start :: records))
  let call ← make (do wrapperCall [← Build.parameter name] block [← LoweringContext.reopened name])
  let binding ← make (Build.variableStatement name none)
  let filled ← make (Build.expressionStatement call)
  return .many [binding, filled]

/-! ## Classes -/

/-- The statement `receiver.field = value;` for a field that has a value. -/
def fieldAssignment (receiver : Fresh Node) (field : MemberVariable) : Draft (List Node) := do
  let declarator ← view VariableDeclarator field.declarator
  match ← viewOption EqualsValueClause declarator.value with
  | none => return []
  | some clause =>
    let value ← lower visit clause.value
    let target ← make (do LoweringContext.memberTarget (← receiver) declarator.name)
    return [← make (LoweringContext.assignmentStatement target value)]

/-- The statements for the fields of objects that have a value. -/
def instanceFields : List Node → Draft (List Node)
  | [] => return []
  | member :: members => do
    let here ← match member.view? MemberVariable with
      | some field =>
        if field.isStatic.isSome then pure [] else fieldAssignment visit Build.thisExpression field
      | none => pure []
    return here ++ (← instanceFields members)

/-- The statement for a field of the class itself that has a value. -/
def staticField (name : Token) (member : Node) : Draft (List Node) := do
  let field ← view MemberVariable member
  if field.isStatic.isNone then return []
  fieldAssignment visit (Build.nameExpression name) field

/-- The statement `this.name = name;` for a parameter that is a field too. -/
def propertyStatement (name : Token) : Fresh Node := do
  LoweringContext.assignSameName (← Build.thisExpression) name

/-- Lowered statements of a constructor: calls of the base constructor, and the others. -/
def constructorStatements (derived : HasBase) : List Node → Draft (List Node × List Node)
  | [] => return ([], [])
  | n :: ns => do
    let lowered := (← visit n).nodes
    let (calls, others) ← constructorStatements derived ns
    if derived && n.isSuperCall then return (lowered ++ calls, others) else return (calls, lowered ++ others)

/-- The constructor function for a constructor with a body. -/
def constructorFunction (members : List Node) (name : Token) (block parameters : Node) (derived : HasBase) :
    Draft Node := do
  let ((parameters, prologue, rest), captured) ← inScope do
    let (parameters, facts) ← parameterList parameters
    let view ← view Block block
    let (calls, rest) ← constructorStatements visit derived view.statements
    let prologue ← parameterPrologue visit facts
    let properties ← facts.properties.mapM (fun name => make (propertyStatement name))
    let fields ← instanceFields visit members
    return (parameters, calls ++ prologue ++ properties ++ fields, rest)
  let prologue ← make (withCapture captured prologue)
  let view ← view Block block
  let lowered ← make (NodeView.toNode { view with statements := rest })
  let block ← assembleBlock lowered prologue
  make (functionDeclaration name parameters block)

/-- The constructor function of a class that has no constructor with a body. -/
def synthesizedConstructor (members : List Node) (name : Token) (derived : HasBase) : Draft Node := do
  let (fields, captured) ← inScope (instanceFields visit members)
  let forward ← if derived then do pure [← make LoweringContext.forwardToBase] else pure []
  let statements ← make (withCapture captured (forward ++ fields))
  let block ← make (braced statements)
  make (do functionDeclaration name (← Build.parameterList []) block)

def classConstructor (members : List Node) (name : Token) (derived : HasBase) : Draft Node :=
  match LoweringContext.firstConstructor? members with
  | some (_, view, block) => constructorFunction visit members name block view.parameters derived
  | none => synthesizedConstructor visit members name derived

/-- The statement that sets a method; a signature without a body is dropped. -/
def method (name : Token) (member : Node) : Draft (List Node) := do
  let function ← view MemberFunction member
  match function.block with
  | none => return []
  | some block =>
    let signature ← view CallSignature function.signature
    let (parameters, block) ← functionLike visit signature.parameters block
    let value ← make (functionExpression parameters block)
    let target ← make (do
      LoweringContext.memberTarget (← LoweringContext.classReceiver name function.isStatic.isSome) function.name)
    return [← make (LoweringContext.assignmentStatement target value)]

def accessorFunction (accessor : Node) : Draft Node := do
  let (parameters, block) ← match accessor.view? MemberGetter with
    | some getter => pure (getter.parameters, getter.block)
    | none => do
      let setter ← view MemberSetter accessor
      pure (setter.parameters, setter.block)
  let (parameters, block) ← functionLike visit parameters block
  make (functionExpression parameters block)

def descriptorProperty (name : String) (value : Node) : Fresh Node := do
  Build.propertyAssignment (← Build.identifier name.toList) value

def accessorProperties : List (String × Node) → Draft (List Node)
  | [] => return []
  | (keyword, accessor) :: rest => do
    let function ← accessorFunction visit accessor
    let property ← make (descriptorProperty keyword function)
    return property :: (← accessorProperties rest)

/-- A property of a descriptor that is true. -/
def flagProperty (name : String) : Fresh Node := do
  descriptorProperty name (← Build.keywordLiteral (.keyword .trueKw))

def descriptor (accessors : List (String × Node)) : Draft Node := do
  let functions ← accessorProperties visit accessors
  let enumerable ← make (flagProperty "enumerable")
  let configurable ← make (flagProperty "configurable")
  let properties := functions ++ [enumerable, configurable]
  let separators ← make (Build.separatorsBetween (Build.markThenSpace .comma) properties)
  let openBrace ← make (Build.openBrace .empty)
  let closeBrace ← make (Build.closeBrace .empty)
  make (Build.objectLiteral openBrace (.separated properties separators) closeBrace)

def defineProperty (name : Token) (members : List Node) (key : AccessorKey) : Draft Node := do
  let descriptor ← descriptor visit (LoweringContext.accessorsOf members key)
  let object ← make (Build.name "Object".toList)
  let define ← make (Build.memberPath object ["defineProperty".toList])
  let receiver ← make (LoweringContext.classReceiver name key.isStatic)
  let named ← make (Build.stringLiteral key.name)
  let call ← make (Build.invocation define [receiver, named, descriptor])
  make (Build.expressionStatement call)

/-- The statements for a member of a class, given the keys of the accessors in front of it. -/
def classMember (name : Token) (members : List Node) (seen : List AccessorKey) (member : Node) :
    Draft (List Node) := do
  match member.kind with
  | .memberFunctionDeclaration => method visit name member
  | .memberVariableDeclaration => staticField visit name member
  | _ =>
    match member.accessorKey? with
    | some key => if seen.contains key then return [] else return [← defineProperty visit name members key]
    | none => return []

/-- The statements for the members of a class but its constructor. -/
def classMembers (name : Token) (members : List Node) : List AccessorKey → List Node → Draft (List Node)
  | _, [] => return []
  | seen, member :: rest => do
    let statements ← classMember visit name members seen member
    let seen := match member.accessorKey? with
      | some key => key :: seen
      | none => seen
    return statements ++ (← classMembers name members seen rest)

/-- The statements of the function around a class: the call that sets up inheritance, and the others. -/
def classBody (view : ClassDeclaration) (derived : HasBase) : Draft (List Node × List Node) := do
  if derived then markDerived
  let inheritance ← if derived then do pure [← make (LoweringContext.extendsCall view.name)] else pure []
  let constructor ← classConstructor visit view.members view.name derived
  let members ← classMembers visit view.name view.members [] view.members
  let returned ← make (do Build.returnStatement (some (← Build.nameExpression view.name)))
  return (inheritance, constructor :: members ++ [returned])

def baseExpression (n : Node) : Draft Node := do
  let clause ← view ExtendsClause n
  match clause.names.members with
  | [] => fail
  | name :: _ =>
    match name.nameParts with
    | [] => fail
    | first :: rest => do
      let first ← make (Build.nameExpression first)
      make (rest.foldlM Build.memberAccess first)

/-- A class; an ambient one is dropped. -/
def classDeclaration (n : Node) : Draft Replacement := do
  let view ← view ClassDeclaration n
  if view.declared.isSome then return .removed
  let base ← view.base.mapM baseExpression
  let ((inheritance, statements), captured) ← inScope (classBody visit view base.isSome)
  let statements ← make (withCapture captured statements)
  let block ← make (braced (inheritance ++ statements))
  let parameters ←
    if base.isSome then do pure [← make (do Build.parameter (← Build.identifier "_super".toList))] else pure []
  let call ← make (wrapperCall parameters block base.toList)
  return .one (← make (Build.variableStatement view.name (some call)))

/-! ## Namespaces -/

/-- The lowered elements of a namespace, and the names they export. -/
def moduleElements : List Node → Draft (List Node × List Token)
  | [] => return ([], [])
  | n :: ns => do
    let lowered := (← visit n).nodes
    let names ← if lowered.isEmpty then pure [] else make n.exportedNames
    let (statements, exported) ← moduleElements ns
    return (lowered ++ statements, names ++ exported)

/-- The variable of a namespace, the call of its wrapper, and the statement that attaches it to the namespace around
it. -/
def namespaceWrapper (name : Token) (parent : Option Token) (block : Node) : Fresh (List Node) := do
  let declaration ← Build.variableStatement name none
  let call ← wrapperCall [← Build.parameter name] block [← LoweringContext.wrapperArgument name parent]
  let call ← Build.expressionStatement call
  match parent with
  | none => return [declaration, call]
  | some parent => return [declaration, call, ← LoweringContext.attachName parent name]

/-- The statements of a namespace wrapped in one function for each part of its name. -/
def wrapLevels (innermost : List Node) : Option Token → List Token → Fresh (List Node)
  | _, [] => return innermost
  | parent, part :: parts => do
    let statements ← wrapLevels innermost (some part) parts
    namespaceWrapper part parent (← braced statements)

/-- The parts of the name of a namespace; too many or none are a fault. -/
def namespaceParts (name : Node) : Draft (List Token) :=
  if name.nameParts.isEmpty ∨ LoweringFault.maxNameParts < name.nameParts.length then fail else pure name.nameParts

/-- A namespace; an ambient one, and one whose name is a string, is dropped. -/
def moduleDeclaration (n : Node) : Draft Replacement := do
  let declaration ← view ModuleDeclaration n
  if declaration.declared.isSome || declaration.name.kind == .literalExpression then return .removed
  let parts ← namespaceParts declaration.name
  let ((statements, exported), captured) ← inScope (moduleElements visit declaration.elements)
  if statements.isEmpty then return .removed
  let attached ← match parts.getLast? with
    | some inner => exported.mapM (fun name => make (LoweringContext.attachName inner name))
    | none => pure []
  let statements ← make (withCapture captured statements)
  return .many (← make (wrapLevels (statements ++ attached) none parts))

/-! ## Rules -/

/-- A whole program. -/
def sourceUnit (n : Node) : Draft Replacement := do
  let view ← view SourceUnit n
  let (elements, captured) ← inScope (walkList visit view.elements)
  let statements ← make (withCapture captured elements)
  return .one (← make (NodeView.toNode (SourceUnit.mk statements view.endOfFile)))

/-- Parameters with the type of the result. -/
def callSignature (n : Node) : Draft Replacement := do
  let signature ← view CallSignature n
  let (parameters, _) ← parameterList signature.parameters
  return .one (← make (Build.callSignature parameters))

/-- What becomes of a node. -/
def rule (n : Node) : Draft Replacement :=
  match n.kind with
  | .sourceUnit => sourceUnit visit n
  | .interfaceDeclaration => return .removed
  | .classDeclaration => classDeclaration visit n
  | .moduleDeclaration => moduleDeclaration visit n
  | .enumDeclaration => enumDeclaration visit n
  | .functionDeclaration => functionStatement visit n
  | .variableStatement => variableStatement visit n
  | .variableDeclarator => variableDeclarator visit n
  | .typeClause => return .removed
  | .callSignature => callSignature n
  | .parameterList => do return .one (← parameterList n).1
  | .parameter => do return .one (← eraseParameter n)
  | .expressionStatement => expressionStatement visit n
  | .thisExpression => thisExpression n
  | .castExpression => castExpression visit n
  | .invocationExpression => invocation visit n
  | .memberAccessExpression => memberAccess visit n
  | .functionExpression => functionValue visit n
  | .getAccessorPropertyAssignment => objectAccessor visit n
  | .setAccessorPropertyAssignment => objectAccessor visit n
  | .simpleArrowFunctionExpression => simpleArrow visit n
  | .parenthesizedArrowFunctionExpression => parenthesizedArrow visit n
  | _ => do return .one (← walk visit n)

end Rules

/-- Drafts a node, looking so many levels down. -/
def visitUpTo : Nat → Node → Draft Replacement
  | 0, _ => fail
  | levels + 1, n => rule (visitUpTo levels) n

end Draft

end Downlevel

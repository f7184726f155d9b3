import Downlevel.Grammar.Statements
/-!
# Grammar.Declarations — classes, interfaces, enums and namespaces
-/
namespace Downlevel.Parser

/-! ## Classes -/

/-- A member with `get` or `set` in front of its name. -/
def memberAccessor (d : Descent) (modifiers : List Slot) : Parser Node := do
  if (← here).isWord "get" then
    nodeAfter .getMemberAccessorDeclaration modifiers
      [current, property, inner (parameterList d), typeClause d, inner (block d)]
  else
    nodeAfter .setMemberAccessorDeclaration modifiers
      [current, property, inner (parameterList d), inner (block d)]

/-- A method or a field, given the words in front of its name. -/
def methodOrField (d : Descent) (modifiers : List Slot) : Parser Node := do
  let name ← property
  if ← seesMark .openParen then
    nodeWithBody d .memberFunctionDeclaration (modifiers ++ [name]) [inner (callSignature d)]
  else nodeAfter .memberVariableDeclaration modifiers [inner (declaratorAfter d name true), statementEnd]

/-- The word `static`, if the name of a member follows it. -/
def staticWord : Part := do
  let r ← here
  if r.kind = .keyword .staticKw && beforePropertyName r then current else nothing

/-- The place is in front of `get` or `set` and the name of a member. -/
def atAccessor (r : Reading) : Bool := (r.isWord "get" || r.isWord "set") && beforePropertyName r

def classElement (d : Descent) : Parser Node := do
  let r ← here
  if r.isWord "constructor" && r.nextIs (.punctuation .openParen) then
    nodeWithBody d .constructorDeclaration [] [current, inner (parameterList d)]
  else
    let modifiers ← parts [access beforePropertyName, staticWord]
    if atAccessor (← here) then memberAccessor d modifiers else methodOrField d modifiers

/-- The class that a class extends. -/
def baseClause (d : Descent) : Parser Node :=
  node .extendsClause [word .extendsKw, (fun n => Slot.separated [n] []) <$> qualifiedName d]

/-- The interfaces that a class implements. -/
def implementsClause (d : Descent) : Parser Node :=
  node .implementsClause [word .implementsKw, commaList d (qualifiedName d)]

/-- A class, given the words in front of `class`. -/
def classDeclaration (d : Descent) (modifiers : List Slot) : Parser Node :=
  nodeAfter .classDeclaration modifiers
    [word .classKw, name, innerIfWord .extendsKw (baseClause d), innerIfWord .implementsKw (implementsClause d),
      mark .openBrace, members d (classElement d), mark .closeBrace]

/-! ## Interfaces, enums and namespaces -/

def extendedInterfaces (d : Descent) : Parser Node :=
  node .extendsClause [word .extendsKw, commaList d (qualifiedName d)]

/-- An interface, given the slot in front of `interface`. -/
def interfaceDeclaration (d : Descent) (exported : Slot) : Parser Node :=
  nodeAfter .interfaceDeclaration [exported]
    [word .interfaceKw, name, innerIfWord .extendsKw (extendedInterfaces d), inner (objectType d)]

def enumElement (d : Descent) : Parser Node := node .enumElement [property, initializer d true]

/-- An enum, given the words in front of `enum`. -/
def enumDeclaration (d : Descent) (modifiers : List Slot) : Parser Node :=
  nodeAfter .enumDeclaration modifiers
    [word .enumKw, name, mark .openBrace, delimited d .closeBrace true (enumElement d), mark .closeBrace]

/-- The name of a namespace: a dotted name, or a string for a module of its own. -/
def moduleName (d : Descent) : Parser Node := do
  if ← sees .string then node .literalExpression [current] else qualifiedName d

/-- A namespace, given the words in front of `module` or `namespace`. -/
def moduleDeclaration (d : Descent) (modifiers : List Slot) : Parser Node :=
  nodeAfter .moduleDeclaration modifiers
    [current, inner (moduleName d), mark .openBrace, members d (d.parse .moduleElement), mark .closeBrace]

/-! ## Module elements -/

/-- The place is in front of the word for a namespace. -/
def atModuleWord (r : Reading) : Bool := r.isWord "module" || r.isWord "namespace"

/-- The place starts what `declare` may stand in front of, on the same line. -/
def isDeclarable (r : Reading) : Bool :=
  !r.startsLine
    && (r.kind == .keyword .classKw || r.kind == .keyword .enumKw || r.kind == .keyword .functionKw
      || r.kind == .keyword .varKw || atModuleWord r)

/-- The word `declare`, if something that it may stand in front of follows. -/
def declareWord : Part := do
  let r ← here
  if r.isWord "declare" && r.nextHas isDeclarable then current else nothing

/-- The place is in front of a namespace: its word, and a name on the same line. -/
def atModule (r : Reading) : Bool :=
  atModuleWord r && r.nextHas (fun next => !next.startsLine && (next.kind == .identifier || next.kind == .string))

/-- A statement, or a declaration with the words in front of it. -/
def moduleElement (d : Descent) : Parser Node := do
  let exported ← optional (.keyword .exportKw)
  let declared ← declareWord
  let modifiers := [exported, declared]
  let r ← here
  match r.kind with
  | .keyword .classKw => classDeclaration d modifiers
  | .keyword .interfaceKw =>
    if declared.token?.isSome then fault .declaredInterface else interfaceDeclaration d exported
  | .keyword .enumKw => enumDeclaration d modifiers
  | .keyword .functionKw => functionDeclaration d modifiers
  | .keyword .varKw => variableStatement d modifiers
  | _ =>
    if atModule r then moduleDeclaration d modifiers
    else if modifiers.any (fun slot => slot.token?.isSome) then expected .declaration
    else d.parse .statement

end Downlevel.Parser

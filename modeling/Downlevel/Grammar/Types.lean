import Downlevel.Grammar.Parts
/-!
# Grammar.Types — types, signatures and parameters

A type is a predefined one, a dotted name, an object type, a function or constructor type, or an array of any of these.
A call signature is a list of parameters with the type of the result behind.
-/
namespace Downlevel.Parser

/-! ## Names -/

/-- A dotted name one part longer, if a dot follows. -/
def qualifiedNameStep (left : Node) : Parser (Option Node) := do
  if ← seesMark .dot then some <$> nodeAfter .qualifiedName [.node left] [mark .dot, member] else return none

def qualifiedName (d : Descent) : Parser Node := do grow d qualifiedNameStep (← node .identifierName [name])

/-- The spellings of the types that have a name of their own. -/
def predefinedTypes : List String := ["any", "number", "bool", "boolean", "string"]

def atPredefinedType (r : Reading) : Bool :=
  predefinedTypes.any r.isWord && !r.nextIs (.punctuation .dot)

/-! ## Signatures -/

/-- The form `: type`, if a colon stands here. -/
def typeClause (d : Descent) : Part :=
  innerIfMark .colon (node .typeClause [mark .colon, inner (d.parse .type)])

/-- The form `= value`, if an equals sign stands here. -/
def initializer (d : Descent) (allowIn : Bool) : Part :=
  innerIfMark .equals (node .equalsValueClause [mark .equals, inner (d.parse (.assignment allowIn))])

/-- The place is in front of a word that says who may use a member. -/
def atAccess (r : Reading) : Bool := r.kind == .keyword .publicKw || r.kind == .keyword .privateKw

/-- A word that says who may use a member, if a test of the place holds too. -/
def access (test : Reading → Bool) : Part := do
  let r ← here
  if atAccess r && test r then current else nothing

def parameter (d : Descent) : Parser Node :=
  node .parameter
    [optionalMark .dotDotDot, access (fun _ => true), name, optionalMark .question, typeClause d,
      initializer d true]

def parameterList (d : Descent) : Parser Node :=
  node .parameterList [mark .openParen, delimited d .closeParen false (parameter d), mark .closeParen]

/-- Parameters and the type of the result. -/
def callSignature (d : Descent) : Parser Node :=
  node .callSignature [inner (parameterList d), typeClause d]

/-! ## Members of types -/

/-- The mark between two members of a type; it may be left out before a brace or at the end of a line. -/
def memberSeparator : Part := do
  let r ← here
  if r.kind = .punctuation .semicolon ∨ r.kind = .punctuation .comma then current
  else if r.kind = .punctuation .closeBrace ∨ r.startsLine then nothing
  else expected (.token (.punctuation .semicolon))

def namedTypeMember (d : Descent) : Parser Node := do
  let slots ← parts [property, optionalMark .question]
  if ← seesMark .openParen then
    nodeAfter .methodSignature slots [inner (callSignature d), memberSeparator]
  else nodeAfter .propertySignature slots [typeClause d, memberSeparator]

def typeMember (d : Descent) : Parser Node := do
  let r ← here
  match r.kind with
  | .punctuation .openParen => node .callSignatureMember [inner (callSignature d), memberSeparator]
  | .punctuation .openBracket =>
    node .indexSignature
      [mark .openBracket, inner (parameter d), mark .closeBracket, typeClause d, memberSeparator]
  | .keyword .newKw =>
    if r.nextIs (.punctuation .openParen) then
      node .constructSignature [word .newKw, inner (callSignature d), memberSeparator]
    else namedTypeMember d
  | _ => namedTypeMember d

/-- Members of a type between braces. -/
def objectType (d : Descent) : Parser Node :=
  node .objectType [mark .openBrace, members d (typeMember d), mark .closeBrace]

/-! ## Types -/

def nonArrayType (d : Descent) : Parser Node := do
  let r ← here
  match r.kind with
  | .punctuation .openBrace => objectType d
  | .punctuation .openParen =>
    node .functionType [inner (parameterList d), mark .equalsGreaterThan, inner (d.parse .type)]
  | .keyword .newKw =>
    node .constructorType
      [word .newKw, inner (parameterList d), mark .equalsGreaterThan, inner (d.parse .type)]
  | .keyword .voidKw => node .predefinedType [current]
  | .identifier => if atPredefinedType r then node .predefinedType [current] else qualifiedName d
  | _ => expected .type

/-- The array of a type, if brackets follow it. -/
def arrayTypeStep (element : Node) : Parser (Option Node) := do
  let r ← here
  if r.kind = .punctuation .openBracket && r.nextIs (.punctuation .closeBracket) then
    some <$> nodeAfter .arrayType [.node element] [mark .openBracket, mark .closeBracket]
  else return none

def typeNode (d : Descent) : Parser Node := do
  grow d arrayTypeStep (← nested (nonArrayType d))

end Downlevel.Parser

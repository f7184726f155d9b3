import Downlevel.Lowering.Members
/-!
# Lowering.Enums — enums as objects that map both ways

An enum `E` becomes a variable and a function that fills it in: `E._map[E.A = 0] = "A";` for each member.  A member
without a value is its index as long as no member in front of it has a value, and the member in front of it plus one
after that.
-/
namespace Downlevel

/-- What is known of the value of the member in front. -/
inductive PreviousValue where
  /-- No member had a value so far; the index of the next one. -/
  | ordinal (next : Nat)
  | known (value : Binary64)
  /-- The value is known when the program runs only. -/
  | member (name : Token)

/-- The number that an expression denotes, if it is a literal, with signs or in parentheses or not; looking so many
levels down. -/
def Node.constantUpTo? : Nat → Node → Option Binary64
  | 0, _ => none
  | levels + 1, n =>
    match n.view? LiteralExpression, n.view? PrefixUnaryExpression, n.view? ParenthesizedExpression with
    | some literal, _, _ => literal.literal.value.number?
    | _, some unary, _ => do
      let operand ← constantUpTo? levels unary.operand
      match unary.operator.kind with
      | .punctuation .minus => some operand.neg
      | .punctuation .plus => some operand
      | _ => none
    | _, _, some parenthesized => constantUpTo? levels parenthesized.expression
    | _, _, _ => none

/-- The number that an expression denotes, if it is a literal, with signs or in parentheses or not. -/
def Node.constant? (n : Node) : Option Binary64 := n.constantUpTo? n.height

namespace LoweringContext

variable (c : LoweringContext)

/-- A number as an expression; a negative one has a sign in front. -/
def numberExpression (x : Binary64) : Fresh Node := do
  if x.isNegative then Build.prefixUnary (.punctuation .minus) (← Build.numericLiteral x.neg.text)
  else Build.numericLiteral x.text

/-- The value of a member that is given none, and what the next member follows. -/
def implicitValue (enumName memberName : Token) : PreviousValue → Fresh (Node × PreviousValue)
  | .ordinal n => return (← numberExpression (Binary64.ofNat n), .ordinal (n + 1))
  | .known x => do
    let next := x.add (Binary64.ofNat 1)
    return (← numberExpression next, .known next)
  | .member previous => do
    let before ← memberTarget (← Build.nameExpression enumName) previous
    let value ← Build.binary before (.punctuation .plus) (← Build.numericLiteral ['1'])
    return (value, .member (← memberName.bare))

/-- The value of a member, and what the next member follows. -/
def enumValue (enumName : Token) (e : EnumElement) (previous : PreviousValue) : Lowering (Node × PreviousValue) := do
  match ← Lowering.viewOption EqualsValueClause e.value with
  | none => implicitValue enumName e.name previous
  | some clause =>
    let value ← (← c.lower clause.value).bare
    match value.constant? with
    | some x => return (value, .known x)
    | none => return (value, .member (← e.name.bare))

/-- The object that maps values back to names: `E._map`. -/
def reverseMap (enumName : Token) : Fresh Node := do
  Build.memberPath (← Build.nameExpression enumName) ["_map".toList]

/-- The statement `E._map[E.name = value] = "name";`. -/
def enumRecord (enumName memberName : Token) (value : Node) : Fresh Node := do
  let target ← memberTarget (← Build.nameExpression enumName) memberName
  let entry ← Build.elementAccess (← reverseMap enumName) (← Build.assignment target value)
  assignmentStatement entry (← Build.stringLiteral memberName.valueText)

/-- The statements for the members of an enum, each given with the separators from the one behind it on. -/
def enumRecords (enumName : Token) (bodyColumn : Nat) :
    List Node → List Token → PreviousValue → Lowering (List Node)
  | [], _, _ => return []
  | n :: ns, separators, previous => do
    match n.view? EnumElement with
    | none => enumRecords enumName bodyColumn ns (separators.drop 1) previous
    | some e =>
      let (value, previous) ← c.enumValue enumName e previous
      let record ← enumRecord enumName e.name value
      let behind := (separators.head?.map Token.trailing).getD .empty
      let trailing := (n.trailing ++ behind).trailingCommentLine c.layout
      let record ← record.withTrivia (c.relocated n.leading bodyColumn) trailing
      return record :: (← enumRecords enumName bodyColumn ns (separators.drop 1) previous)

/-- The statement `E._map = [];`. -/
def reverseMapStart (enumName : Token) : Fresh Node := do
  assignmentStatement (← reverseMap enumName) (← Build.arrayLiteral [])

/-- The argument `E || (E = {})`. -/
def reopened (name : Token) : Fresh Node := do
  orCreate (← Build.nameExpression name) (← Build.nameExpression name)

/-- An enum; an ambient one is dropped. -/
def enumDeclaration (n : Node) : Lowering Replacement := do
  let declaration ← Lowering.view EnumDeclaration n
  if declaration.declared.isSome then return .removed
  let name ← declaration.name.bare
  let column := c.columnOf n
  let bodyColumn := column + c.indentSize
  let start ← c.statementAt bodyColumn (← reverseMapStart name)
  let records ←
    c.enumRecords name bodyColumn declaration.members.members declaration.members.separators (.ordinal 0)
  let block ← c.bodyBlock declaration.openBrace declaration.closeBrace (start :: records) column
  let call ← wrapperCall [← Build.parameter name] block [← reopened name]
  let binding ← Build.variableStatement name none
  let leading := declaration.keyword.leadingWithoutExport declaration.exported
  let binding ← binding.withTrivia leading c.newLine
  let filled ← Build.expressionStatement call
  let filled ← filled.withTrivia (c.indentation column) (c.lineEnd declaration.closeBrace.trailing)
  return .many [binding, filled]

end LoweringContext

end Downlevel

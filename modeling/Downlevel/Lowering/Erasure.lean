import Downlevel.Lowering.Context
/-!
# Lowering.Erasure — types and modifiers that leave no trace

Annotations, casts and ambient declarations say nothing about what a program does, and plain code has no `export`.
What is dropped hands its trivia over, so that comments on what is kept survive.
-/
namespace Downlevel

/-- The trivia behind a token once the type behind it is dropped: that of the dropped part, and that of the token only
if there is a comment in it. -/
def TriviaList.afterErasure (kept dropped : TriviaList) : TriviaList :=
  if kept.hasComment then kept ++ dropped else dropped

/-- The trivia in front of the token behind a dropped word. -/
def Token.leadingWithout (modifier : Token) (next : TriviaList) : TriviaList :=
  let lead := if modifier.trailing.hasComment then modifier.leading ++ modifier.trailing else modifier.leading
  lead ++ next

/-- The trivia in front of a word that may have `export` in front of it, once that is dropped. -/
def Token.leadingWithoutExport (word : Token) : Option Token → TriviaList
  | some exported => exported.leadingWithout word.leading
  | none => word.leading

namespace LoweringContext

variable (c : LoweringContext)

/-- A statement that declares variables, without `export`; an ambient one is dropped. -/
def variableStatement (n : Node) : Lowering Replacement := do
  let statement ← Lowering.view VariableStatement n
  if statement.declared.isSome then return .removed
  let walked ← c.walk n
  match statement.exported with
  | none => return .one walked
  | some exported =>
    let lowered ← Lowering.view VariableStatement walked
    let declaration ← lowered.declaration.withLeading (exported.leadingWithout lowered.declaration.leading)
    return .one (← NodeView.toNode (VariableStatement.mk none none declaration lowered.semicolon))

/-- A variable without its type. -/
def variableDeclarator (n : Node) : Lowering Replacement := do
  let declarator ← Lowering.view VariableDeclarator n
  match declarator.type with
  | none => return .one (← c.walk n)
  | some annotation =>
    let value ← declarator.value.mapM c.lower
    let name ← declarator.name.withTrailing (declarator.name.trailing.afterErasure annotation.trailing)
    return .one (← NodeView.toNode (VariableDeclarator.mk name none value))

/-- The expression of a cast, with the trivia in front of the cast. -/
def castExpression (n : Node) : Lowering Replacement := do
  let cast ← Lowering.view Cast n
  let expression ← c.lower cast.expression
  return .one (← expression.withLeading (cast.lessThan.leading ++ expression.leading))

end LoweringContext

end Downlevel

import Downlevel.Lowering.Context
/-!
# Lowering.Super — references to the base class

Within a lowered class the base class is `_super`: a call `super(a)` is `_super.call(this, a)`, a call `super.m(a)` is
`_super.prototype.m.call(this, a)`, and `super.m` alone is `_super.prototype.m`.
-/
namespace Downlevel.LoweringContext

variable (c : LoweringContext)

/-- The name `_super` with the trivia in front of the word `super`. -/
def superReference (keyword : Token) : Fresh Node := do
  Build.nameExpression (← (← Build.identifier "_super".toList).withLeading keyword.leading)

/-- The form `_super.prototype`. -/
def superPrototype (keyword : Token) : Fresh Node := do
  Build.memberAccess (← superReference keyword) (← Build.identifier "prototype".toList)

/-- The form `target.call`. -/
def callMember (target : Node) : Fresh Node := do Build.memberAccess target (← Build.identifier "call".toList)

/-- The function that a call through `super` calls, if it is one. -/
def superCallee? (callee : Node) : Fresh (Option Node) := do
  match callee.view? SuperExpression, callee.view? MemberAccess with
  | some base, _ => do
    let target ← callMember (← superReference base.keyword)
    return some (← target.withTrailing base.keyword.trailing)
  | none, some access =>
    match access.expression.view? SuperExpression with
    | some base => do
      let method ← Build.memberAccess (← superPrototype base.keyword) (← access.name.withTrailing .empty)
      let target ← callMember method
      return some (← target.withTrailing access.name.trailing)
    | none => return none
  | none, none => return none

/-- The call of `target` with `this` in front of the lowered arguments. -/
def callWithThis (target arguments : Node) : Lowering Replacement := do
  let list ← Lowering.view ArgumentList (← c.lower arguments)
  -- The `this` of the place of the call, which is `_this` within an arrow function.
  let this ← Lowering.thisReference (← Build.token (.keyword .thisKw))
  let comma ← if list.arguments.members.isEmpty then pure [] else do pure [← Build.markThenSpace .comma]
  let passed : SeparatedNodes := ⟨this :: list.arguments.members, comma ++ list.arguments.separators⟩
  let arguments ← NodeView.toNode { list with arguments := passed }
  return .one (← NodeView.toNode (Invocation.mk target arguments))

/-- A call. -/
def invocation (n : Node) : Lowering Replacement := do
  let call ← Lowering.view Invocation n
  match ← superCallee? call.callee with
  | some target => c.callWithThis target call.arguments
  | none => return .one (← c.walk n)

def memberAccess (n : Node) : Lowering Replacement := do
  let access ← Lowering.view MemberAccess n
  match access.expression.view? SuperExpression with
  | some base =>
    return .one (← NodeView.toNode (MemberAccess.mk (← superPrototype base.keyword) access.dot access.name))
  | none => return .one (← c.walk n)

/-- The expression `this`. -/
def thisExpression (n : Node) : Lowering Replacement := do
  let expression ← Lowering.view ThisExpression n
  let reference ← Lowering.thisReference expression.keyword
  return .one (if reference.kind = n.kind then n else reference)

end Downlevel.LoweringContext

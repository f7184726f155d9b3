import Downlevel.Grammar.Program
import Downlevel.Lowering.Arrows
import Downlevel.Lowering.Classes
import Downlevel.Lowering.Enums
import Downlevel.Lowering.Namespaces
import Downlevel.Lowering.Super
/-!
# Lowering.Program — lowering a whole tree

`rule` says what becomes of each kind of node; what has no rule is walked through.  `lower` checks the tree first and
gives it back as it is if nothing in it is written in the dialect only.  Otherwise it lowers the tree, writes the helper
for derived classes in front if that is asked for, copies tokens that stand at two places, and checks what came out.
-/
namespace Downlevel

namespace LoweringContext

variable (c : LoweringContext)

/-! ## Rules -/

/-- A program, its captured `this` declared behind the comments at its head. -/
def captureAtHead : List Node → Fresh (List Node)
  | [] => return [← c.captureStatement 0]
  | first :: rest => do
    -- Comments at the head of the file stay above the declaration.
    let (head, tail) := first.leading.splitLines
    let capture ← (← c.captureStatement 0).withLeading head
    return capture :: (← first.withLeading tail) :: rest

/-- A whole program. -/
def sourceUnit (n : Node) : Lowering Replacement := do
  let view ← Lowering.view SourceUnit n
  let (elements, captured) ← Lowering.inScope (c.transformer.walkList view.elements)
  if !captured && !elements.changed then return .one n
  let statements ← if captured then Work.lift (c.captureAtHead elements.value) else pure elements.value
  return .one (← NodeView.toNode (SourceUnit.mk statements view.endOfFile))

/-- Parameters with the type of the result. -/
def callSignature (n : Node) : Lowering Replacement := do
  let signature ← Lowering.view CallSignature n
  let (parameters, _) ← parameterList signature.parameters signature.resultType
  -- A type of the result would have made the list a new one.
  if parameters.isSame signature.parameters then return .one n
  return .one (← Build.callSignature parameters)

/-- What becomes of a node. -/
def rule (n : Node) : Lowering Replacement :=
  match n.kind with
  | .sourceUnit => c.sourceUnit n
  | .interfaceDeclaration => return .removed
  | .classDeclaration => c.classDeclaration n
  | .moduleDeclaration => c.moduleDeclaration n
  | .enumDeclaration => c.enumDeclaration n
  | .functionDeclaration => c.functionDeclaration n
  | .variableStatement => c.variableStatement n
  | .variableDeclarator => c.variableDeclarator n
  | .typeClause => return .removed
  | .callSignature => callSignature n
  | .parameterList => do return .one (← parameterList n none).1
  | .parameter => do return .one (← eraseParameter n)
  | .expressionStatement => c.expressionStatement n
  | .thisExpression => thisExpression n
  | .castExpression => c.castExpression n
  | .invocationExpression => c.invocation n
  | .memberAccessExpression => c.memberAccess n
  | .functionExpression => c.functionExpression n
  | .getAccessorPropertyAssignment => c.objectAccessor n
  | .setAccessorPropertyAssignment => c.objectAccessor n
  | .simpleArrowFunctionExpression => c.simpleArrow n
  | .parenthesizedArrowFunctionExpression => c.parenthesizedArrow n
  | _ => do return .one (← c.walk n)

end LoweringContext

/-! ## Trees -/

/-- Lowers a node, looking so many levels down. -/
def visitUpTo (positions : Positions) (layout : LayoutOptions) : Nat → Node → Lowering Replacement
  | 0, n => Lowering.faultOn .tooDeep n
  | levels + 1, n => LoweringContext.rule ⟨positions, layout, visitUpTo positions layout levels⟩ n

/-- What the rules need to lower a tree. -/
def LoweringContext.ofTree (n : Node) (layout : LayoutOptions) : LoweringContext :=
  let positions := Positions.ofTree n layout
  ⟨positions, layout, visitUpTo positions layout LoweringFault.maxTreeDepth⟩

/-- The rules applied to a whole tree. -/
def Node.lowerByRules (n : Node) (layout : LayoutOptions) : Lowering Node := (LoweringContext.ofTree n layout).lower n

/-- The helper that derived classes call, with four spaces to a level. -/
def extendsHelperSource : List Char :=
  ("var __extends = this.__extends || function (d, b) \x7b\n    function __() \x7b this.constructor = d; \x7d\n"
    ++ "    __.prototype = b.prototype;\n    d.prototype = new __();\n\x7d;\n").toList

/-- `new` in place of every run of four spaces. -/
def replaceFourSpaces (new : List Char) : List Char → List Char
  | ' ' :: ' ' :: ' ' :: ' ' :: cs => new ++ replaceFourSpaces new cs
  | c :: cs => c :: replaceFourSpaces new cs
  | [] => []

/-- The helper that derived classes call, laid out. -/
def LayoutOptions.extendsHelper (o : LayoutOptions) : List Char :=
  Text.replaceChar '\n' o.newLine (replaceFourSpaces (o.indentation o.indentSize) extendsHelperSource)

/-- The tree that a text reads as. -/
def parseFresh (text : List Char) : Fresh (Except ParseError Node) := fun next => parseFrom text next

/-- A program with the helper for derived classes in front of its statements; another tree is left as it is. -/
def Node.withExtendsHelper (n : Node) (o : LayoutOptions) : Lowering Node := do
  match n.view? SourceUnit with
  | none => return n
  | some program =>
    match ← parseFresh o.extendsHelper with
    | .error e => Work.fail (.onNothing (.helper e.shown))
    | .ok helper =>
      let helper ← Lowering.view SourceUnit helper
      NodeView.toNode { program with elements := helper.elements ++ program.elements }

/-- Lowers a tree that holds something written in the dialect only. -/
def Node.lowerSpecific (n : Node) (o : LoweringOptions) : Lowering Node := do
  let lowered ← n.lowerByRules o.layout
  let lowered ← if o.emitHelpers && (← Work.own).derived then lowered.withExtendsHelper o.layout else pure lowered
  -- A name may have been put to use twice, as that of a class is.
  let unique ← Lowering.ofTransformed lowered.withUniqueTokens
  match unique.checkInvariants with
  | .error v => Work.fail (.onNothing (.invariants v))
  | .ok () =>
    if unique.isSpecific then Lowering.faultOn .dialectLeft unique
    return unique

/-- **Lowers a tree.**  The objects of the tree are older than `next`. -/
def Node.lower (n : Node) (o : LoweringOptions) : Fresh (Except LoweringError Node) := fun next =>
  match n.checkInvariants with
  | .error v => (.error (.ofViolation n v), next)
  | .ok () =>
    if n.isSpecific then
      let (outcome, _, next) := (n.lowerSpecific o).runFrom .initial next
      (outcome, next)
    else (.ok n, next)

/-! ## Texts -/

/-- Why a text cannot be lowered. -/
inductive SourceError where
  | unreadable (error : ParseError) (position : Position)
  | notLowered (error : LoweringError)
  deriving DecidableEq, Repr

/-- The wording of an error; lines and characters of a text count from one. -/
def SourceError.message : SourceError → List Char
  | unreadable error position =>
    Text.ofNat (position.line + 1) ++ [':'] ++ Text.ofNat (position.character + 1) ++ [':', ' '] ++ error.message
  | notLowered error => error.message

/-- **Lowers a text.** -/
def lowerText (text : List Char) (o : LoweringOptions) : Except SourceError (List Char) :=
  match parseFrom text 0 with
  | (.error e, _) => .error (.unreadable e (e.position text))
  | (.ok tree, next) =>
    match (tree.lower o next).1 with
    | .ok lowered => .ok lowered.fullText
    | .error e => .error (.notLowered e)

end Downlevel

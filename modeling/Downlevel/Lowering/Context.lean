import Downlevel.Lowering.Error
import Downlevel.Tree.Build
import Downlevel.Tree.Positions
import Downlevel.Tree.Reindent
import Downlevel.Tree.View
/-!
# Lowering.Context — what every rule of lowering works with

Rules read columns off the tree that was given (`Context.positions`), which is why each rule works on nodes of that tree
and lowers its parts itself.  The state (`LoweringState`) holds the functions around the current place that have a
`this` of their own, and the lines that an arrow function around it has moved; `inScope`, `inArrow` and `atLine` change
it for one part only.
-/
namespace Downlevel

/-- A function, or a whole program, with a `this` of its own. -/
structure ThisScope where
  /-- The arrow functions entered within. -/
  arrowDepth : Nat
  /-- An arrow function within refers to `this`. -/
  captured : Bool
  deriving DecidableEq, Repr

/-- What changes while a tree is lowered. -/
structure LoweringState where
  /-- The scopes around the current place, innermost first. -/
  scopes : List ThisScope
  /-- Lines of the tree that was given with the columns at which they are laid out, innermost first. -/
  lineLayouts : List (Nat × Nat)
  /-- A class with a base was lowered. -/
  derived : Bool
  deriving DecidableEq, Repr

def LoweringState.initial : LoweringState := ⟨[], [], false⟩

def LoweringState.mapScope (change : ThisScope → ThisScope) (s : LoweringState) : LoweringState :=
  match s.scopes with
  | [] => s
  | scope :: rest => { s with scopes := change scope :: rest }

/-- A computation that lowers a part of a tree. -/
abbrev Lowering := Work LoweringError LoweringState

/-- What stays the same while a tree is lowered, and how its parts are lowered. -/
structure LoweringContext where
  positions : Positions
  layout : LayoutOptions
  visit : Node → Lowering Replacement

namespace Lowering

variable {α : Type}

def faultOn (fault : LoweringFault) (tree : Node) : Lowering α := Work.fail (.onTree fault tree)

/-- A part, or the error that says how it does not fit its place. -/
def ofTransformed (part : Fresh (Except SlotError α)) : Lowering α := do
  match ← (part : Fresh (Except SlotError α)) with
  | .ok a => return a
  | .error e => Work.fail (.ofSlotError e)

/-- A node read by the names of its slots. -/
def view (α : Type) [NodeView α] (n : Node) : Lowering α :=
  match n.view? α with
  | some view => return view
  | none => Work.fail (.ofSlotError (.malformed n.kind (.otherKind (NodeView.kind α))))

/-- A node read by the names of its slots, where there is one. -/
def viewOption (α : Type) [NodeView α] : Option Node → Lowering (Option α)
  | some n => some <$> view α n
  | none => return none

/-! ## Scopes of `this` -/

/-- A part with a `this` of its own, and whether an arrow function within refers to it. -/
def inScope (part : Lowering α) : Lowering (α × Bool) := fun s =>
  -- The scope is left whether the part succeeds or fails.
  let leave (after : Supplied LoweringState) : Supplied LoweringState :=
    { after with own := { after.own with scopes := after.own.scopes.tail } }
  match part { s with own := { s.own with scopes := ⟨0, false⟩ :: s.own.scopes } } with
  | .ok a after => .ok (a, after.own.scopes.head?.any ThisScope.captured) (leave after)
  | .error e after => .error e (leave after)

/-- A part that lies in an arrow function. -/
def inArrow (part : Lowering α) : Lowering α := do
  Work.modifyOwn (LoweringState.mapScope (fun scope => { scope with arrowDepth := scope.arrowDepth + 1 }))
  part.andThen (LoweringState.mapScope (fun scope => { scope with arrowDepth := scope.arrowDepth - 1 }))

/-- A part that is lowered while a line is laid out at a column. -/
def atLine (line column : Nat) (part : Lowering α) : Lowering α := do
  Work.modifyOwn (fun s => { s with lineLayouts := (line, column) :: s.lineLayouts })
  part.andThen (fun s => { s with lineLayouts := s.lineLayouts.tail })

/-- A class with a base is lowered. -/
def markDerived : Lowering Unit := Work.modifyOwn (fun s => { s with derived := true })

/-- The current place lies in an arrow function of its scope. -/
def isInArrow : Lowering Bool := do return (← Work.own).scopes.head?.any (fun scope => 0 < scope.arrowDepth)

/-- The reference to `this` that a keyword makes: `_this` within an arrow function, which its scope then has to
declare. -/
def thisReference (keyword : Token) : Lowering Node := do
  if ← isInArrow then
    Work.modifyOwn (LoweringState.mapScope (fun scope => { scope with captured := true }))
    let name ← Build.identifier "_this".toList
    Build.nameExpression (← name.withTrivia keyword.leading keyword.trailing)
  else NodeView.toNode (ThisExpression.mk keyword)

end Lowering

namespace LoweringContext

variable (c : LoweringContext)

/-! ## Lowering parts -/

/-- The transformer that lowers every node it meets. -/
def transformer : Transformer LoweringError LoweringState := ⟨.ofSlotError, fun t => return t, c.visit⟩

/-- Lowers a node, which must come back as one node. -/
def lower (n : Node) : Lowering Node := c.transformer.root n

/-- Lowers what stands directly in a node. -/
def walk (n : Node) : Lowering Node := c.transformer.walk n

/-! ## Columns of the tree that was given -/

/-- The columns of an indentation level. -/
def indentSize : Nat := c.layout.indentSize

/-- The column at which a node starts; zero for a node that was made. -/
def columnOf (n : Node) : Nat := (n.firstToken?.bind c.positions.startColumn?).getD 0

/-- The indentation of the line on which a node starts. -/
def lineIndentationOf (n : Node) : Nat := (n.firstToken?.bind c.positions.indentationOf?).getD 0

/-- The line on which a node starts. -/
def lineOf? (n : Node) : Option Nat := n.firstToken?.bind c.positions.lineOf?

/-- The indentation at which the line of a node is laid out. -/
def laidOutIndentationOf (n : Node) : Lowering Nat := do
  let layouts := (← Work.own).lineLayouts
  return ((c.lineOf? n).bind (fun line => layouts.lookup line)).getD (c.lineIndentationOf n)

/-- Lowers a node while the line on which it starts is laid out at a column. -/
def lowerAtLine (n : Node) (column : Nat) : Lowering Node :=
  match c.lineOf? n with
  | some line => Lowering.atLine line column (c.lower n)
  | none => c.lower n

/-! ## Trivia -/

/-- The blanks that reach a column. -/
def indentation (column : Nat) : TriviaList := TriviaList.indentation column c.layout

/-- One end of line. -/
def newLine : TriviaList := TriviaList.newLine c.layout

/-- Trailing trivia that ends its line. -/
def lineEnd (t : TriviaList) : TriviaList := t.endingLine c.layout

/-- Leading trivia moved to a line that starts at a column. -/
def relocated (t : TriviaList) (column : Nat) : TriviaList := t.relocated column c.layout

/-- A tree with its lines moved. -/
def reindent (n : Node) (first : Bool) (delta : Int) : Lowering Node :=
  Lowering.ofTransformed (n.reindented ⟨c.layout, delta, c.layout.indentSize⟩ first)

/-- The trivia in front of a closing brace at a column; the comments that stood there are kept and moved by `shift`. -/
def closingBraceLeading (before : Token) (column : Nat) (shift : Int) : TriviaList :=
  if before.leading.hasComment then before.leading.shifted shift c.layout else c.indentation column

/-! ## Statements -/

/-- A statement that was made, on a line of its own at a column. -/
def statementAt (column : Nat) (statement : Node) : Fresh Node :=
  statement.withTrivia (c.indentation column) c.newLine

/-- A statement moved to a line of its own at a column, with its comments. -/
def placeStatement (column : Nat) (statement : Node) : Fresh Node :=
  statement.withTrivia (c.relocated statement.leading column) (c.lineEnd statement.trailing)

/-- Statements moved to lines of their own at a column. -/
def placeStatements (column : Nat) (statements : List Node) : Fresh (List Node) :=
  statements.mapM (c.placeStatement column)

/-- The statement `var _this = this;` on a line of its own at a column. -/
def captureStatement (column : Nat) : Fresh Node := do
  let name ← Build.identifier "_this".toList
  let statement ← Build.variableStatement name (some (← Build.thisExpression))
  c.statementAt column statement

/-- The statements with the first one moved to a line that starts at a column. -/
def relocateFirst (column : Nat) : List Node → Fresh (List Node)
  | [] => return []
  | n :: ns => return (← n.withLeading (c.relocated n.leading column)) :: ns

def endLastLine : List Node → Fresh (List Node)
  | [] => return []
  | [n] => return [← n.withTrailing (c.lineEnd n.trailing)]
  | n :: ns => return n :: (← endLastLine ns)

/-- A lowered block with `prologue` at its top, at `bodyColumn`, and its brace closed at `closeColumn`; without a
prologue it is the same block. -/
def assembleBlock (block : Node) (prologue : List Node) (bodyColumn closeColumn : Nat) : Lowering Node := do
  if prologue.isEmpty then return block
  let view ← Lowering.view Block block
  let placed ← c.placeStatements bodyColumn prologue
  -- The first statement may have stood on the line of the brace, and the last one on that of the other brace.
  let rest ← c.relocateFirst bodyColumn view.statements
  let statements ← c.endLastLine (placed ++ rest)
  let openBrace ← view.openBrace.withTrailing (c.lineEnd view.openBrace.trailing)
  let closeLeading := c.closingBraceLeading view.closeBrace closeColumn 0
  let closeBrace ← view.closeBrace.withLeading closeLeading
  Build.block openBrace statements closeBrace

end LoweringContext

end Downlevel

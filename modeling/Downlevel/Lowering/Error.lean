import Downlevel.Tree.Cursor
import Downlevel.Tree.Invariants
import Downlevel.Tree.Transform
/-!
# Lowering.Error — why a tree cannot be lowered

Either the tree that was given breaks an invariant, and nothing was lowered, or a rule met something that it cannot
handle.
-/
namespace Downlevel

/-- What a rule of lowering cannot handle. -/
inductive LoweringFault where
  | tooDeep
  | namespaceWithoutName
  | tooManyNameParts
  | extendsNothing
  | baseWithoutName
  | constructorWithoutBody
  | slot (error : SlotError)
  | helper (message : List Char)
  | invariants (violation : Violation)
  | dialectLeft
  deriving DecidableEq, Repr

namespace LoweringFault

/-- The levels of nodes that a tree may have. -/
def maxTreeDepth : Nat := 2000

/-- The parts that the name of a namespace may have. -/
def maxNameParts : Nat := 100

/-- The name of the rule that a fault belongs to. -/
def rule : LoweringFault → String
  | tooDeep => "depth"
  | namespaceWithoutName => "namespace"
  | tooManyNameParts => "namespace"
  | extendsNothing => "class"
  | baseWithoutName => "class"
  | constructorWithoutBody => "class"
  | slot _ => "rewrite"
  | helper _ => "helpers"
  | invariants _ => "invariants"
  | dialectLeft => "lowering"

def detail : LoweringFault → List Char
  | tooDeep => "tree is nested deeper than ".toList ++ Text.ofNat maxTreeDepth ++ " levels".toList
  | namespaceWithoutName => "module name is not a name".toList
  | tooManyNameParts => "qualified name has more than ".toList ++ Text.ofNat maxNameParts ++ " parts".toList
  | extendsNothing => "extends clause without a base class".toList
  | baseWithoutName => "base class is not a name".toList
  | constructorWithoutBody => "constructor without a body".toList
  | slot error => error.message
  | helper message => message
  | invariants violation => violation.message
  | dialectLeft => "output still contains TypeScript-specific syntax".toList

end LoweringFault

/-- Why a tree cannot be lowered. -/
inductive LoweringError where
  /-- The tree breaks an invariant; the path leads to the node that has the fault. -/
  | precondition (violation : Violation) (path : Option (List Char))
  /-- A rule failed; the text is that of the tree it failed on, or nothing. -/
  | internal (fault : LoweringFault) (subtree : List Char)
  deriving DecidableEq, Repr

namespace LoweringError

def ofViolation (tree : Node) (v : Violation) : LoweringError :=
  precondition v (((Cursor.root tree).innermost? v.offset v.kind).map Cursor.path)

/-- A rule that failed on a tree. -/
def onTree (fault : LoweringFault) (tree : Node) : LoweringError := internal fault tree.fullText

/-- A rule that failed on no tree in particular. -/
def onNothing (fault : LoweringFault) : LoweringError := internal fault []

/-- A part that does not fit the slot that it is put in. -/
def ofSlotError (error : SlotError) : LoweringError := onNothing (.slot error)

/-- What is wrong with the tree that was given. -/
def preconditionDetail (v : Violation) (path : Option (List Char)) : List Char :=
  let place := match path with
    | some path => " (in ".toList ++ path ++ [')']
    | none => []
  v.fault.invariant.name.toList ++ ": ".toList ++ v.fault.detail ++ place

def message : LoweringError → List Char
  | precondition v path =>
    "input tree is malformed at ".toList ++ v.kind.name.toList ++ " (offset ".toList ++ Text.ofNat v.offset
      ++ "): ".toList ++ preconditionDetail v path
  | internal fault _ => "lowering rule `".toList ++ fault.rule.toList ++ "` failed: ".toList ++ fault.detail

end LoweringError

end Downlevel

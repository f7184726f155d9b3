import Downlevel.Tree.Basic
/-!
# Tree.Facts — what lowering asks about a tree

A tree needs lowering when some node of it is written in the dialect only: a class, an interface, a namespace, an enum,
an arrow function, a cast, a type, or a declaration with a part that plain code has no place for.
-/
namespace Downlevel

/-- The slot of a node with a given number holds something. -/
def Node.has (n : Node) (slot : Nat) : Bool :=
  match n.slots[slot]? with
  | none => false
  | some .absent => false
  | some _ => true

/-- The node itself is written in the dialect only. -/
def Node.isDialectForm (n : Node) : Bool :=
  match n.kind with
  | .classDeclaration | .interfaceDeclaration | .moduleDeclaration | .enumDeclaration => true
  | .simpleArrowFunctionExpression | .parenthesizedArrowFunctionExpression => true
  | .castExpression | .typeClause => true
  | .parameter => n.has 0 || n.has 1 || n.has 3 || n.has 4 || n.has 5
  | .functionDeclaration => n.has 0 || n.has 1 || !n.has 5
  | .variableStatement => n.has 0 || n.has 1
  | _ => false

/-- **The tree has to be lowered**: some node of it is written in the dialect only. -/
def Node.isSpecific (n : Node) : Bool := n.all.any Node.isDialectForm

mutual

/-- Some node below refers to the `this` of the place where the node stands. -/
def Node.refersToThis : Node → Bool
  | .mk _ _ slots => Slot.anyRefersToThis slots

/-- Some slot of a row refers to the `this` around it. -/
def Slot.anyRefersToThis : List Slot → Bool
  | [] => false
  | slot :: slots => Slot.refersToThis slot || Slot.anyRefersToThis slots

/-- A slot refers to the `this` around it. -/
def Slot.refersToThis : Slot → Bool
  | .absent => false
  | .token _ => false
  | .node n => Node.isOrRefersToThis n
  | .list members => Node.anyRefersToThis members
  | .separated members _ => Node.anyRefersToThis members

/-- Some node of a list refers to the `this` around it. -/
def Node.anyRefersToThis : List Node → Bool
  | [] => false
  | n :: ns => Node.isOrRefersToThis n || Node.anyRefersToThis ns

/-- A node is or refers to the `this` around it; a function with a `this` of its own does not. -/
def Node.isOrRefersToThis : Node → Bool
  | .mk _ kind slots =>
    if kind = .thisExpression then true
    else if kind.isFunctionLike then false
    else Slot.anyRefersToThis slots

end

/-- The parts of a dotted name, outermost first, looking at most so many levels deep; none for another node. -/
def Node.namePartsUpTo : Nat → Node → List Token
  | 0, _ => []
  | depth + 1, n =>
    match n.kind, n.slots with
    | .qualifiedName, [.node left, .token _, .token right] => namePartsUpTo depth left ++ [right]
    | .identifierName, [.token identifier] => [identifier]
    | _, _ => []

/-- The parts of a dotted name, outermost first; none for a node that is no name. -/
def Node.nameParts (n : Node) : List Token := namePartsUpTo n.height n

end Downlevel

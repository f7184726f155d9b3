import Downlevel.Tree.Supply
/-!
# Tree.Edit — replacing tokens in a tree

Trees are values, so an edit builds the nodes on the way to the changed token anew and shares all others.
`mapEdge?` changes the first or the last token that has characters or trivia; `replaceToken` puts a token in the place
of an object wherever that object stands, and gives the same tree back where it stands nowhere.
-/
namespace Downlevel

/-- An end of a tree. -/
inductive Edge where
  | first
  | last
  deriving DecidableEq, Repr

/-- Puts an element in the place of the first one that passes a test. -/
def replaceFirst {α : Type} (here : α → Bool) (new : α) : List α → List α
  | [] => []
  | a :: as => if here a then new :: as else a :: replaceFirst here new as

/-- A changed item of a separated list: the object that was there and the new one. -/
inductive SeparatedEdit where
  | member (old new : Node)
  | separator (old new : Token)

/-- A separated list with the first occurrence of the changed object replaced. -/
def SeparatedEdit.apply (members : List Node) (separators : List Token) : SeparatedEdit → Slot
  | member old new => .separated (replaceFirst (·.isSame old) new members) separators
  | separator old new => .separated members (replaceFirst (·.isSame old) new separators)

/-- A token that has characters or trivia, changed. -/
def Token.mapEdge? (change : Token → Fresh Token) (t : Token) : Fresh (Option Token) := do
  if 0 < t.fullWidth then return some (← change t) else return none

/-- The first or last separator that has characters or trivia, changed. -/
def SeparatedEdit.ofSeparators? (edge : Edge) (change : Token → Fresh Token) (separators : List Token) :
    Fresh (Option SeparatedEdit) := do
  let inOrder := match edge with
    | .first => separators
    | .last => separators.reverse
  match inOrder.find? (fun t => 0 < t.fullWidth) with
  | some t => return some (.separator t (← change t))
  | none => return none

/-! ## Edges -/

mutual

/-- The node with a new token in place of the one at an edge; none if no token has characters or trivia. -/
def Node.mapEdge? (edge : Edge) (change : Token → Fresh Token) : Node → Fresh (Option Node)
  | .mk _ kind slots => do
    match ← Slot.mapEdgeOfAll? edge change slots with
    | some slots => return some (← Node.fresh kind slots)
    | none => return none

/-- A row of slots with a new token at an edge. -/
def Slot.mapEdgeOfAll? (edge : Edge) (change : Token → Fresh Token) : List Slot → Fresh (Option (List Slot))
  | [] => return none
  | slot :: slots => do
    match edge with
    | .first =>
      match ← Slot.mapEdge? edge change slot with
      | some slot => return some (slot :: slots)
      | none => return (← Slot.mapEdgeOfAll? edge change slots).map (slot :: ·)
    | .last =>
      match ← Slot.mapEdgeOfAll? edge change slots with
      | some slots => return some (slot :: slots)
      | none => return (← Slot.mapEdge? edge change slot).map (· :: slots)

def Slot.mapEdge? (edge : Edge) (change : Token → Fresh Token) : Slot → Fresh (Option Slot)
  | .absent => return none
  | .token t => return (← t.mapEdge? change).map .token
  | .node n => return (← Node.mapEdge? edge change n).map .node
  | .list members => return (← Node.mapEdgeOfList? edge change members).map .list
  | .separated members separators =>
    return (← Node.mapEdgeOfItems? edge change members separators).map (·.apply members separators)

/-- A list of nodes with a new token at an edge. -/
def Node.mapEdgeOfList? (edge : Edge) (change : Token → Fresh Token) : List Node → Fresh (Option (List Node))
  | [] => return none
  | n :: ns => do
    match edge with
    | .first =>
      match ← Node.mapEdge? edge change n with
      | some n => return some (n :: ns)
      | none => return (← Node.mapEdgeOfList? edge change ns).map (n :: ·)
    | .last =>
      match ← Node.mapEdgeOfList? edge change ns with
      | some ns => return some (n :: ns)
      | none => return (← Node.mapEdge? edge change n).map (· :: ns)

/-- The changed item of a separated list that has a new token at an edge. -/
def Node.mapEdgeOfItems? (edge : Edge) (change : Token → Fresh Token) :
    List Node → List Token → Fresh (Option SeparatedEdit)
  | [], separators => SeparatedEdit.ofSeparators? edge change separators
  | n :: ns, separators => do
    match edge with
    | .first =>
      match ← Node.mapEdge? edge change n with
      | some new => return some (.member n new)
      | none =>
        match ← SeparatedEdit.ofSeparators? edge change (separators.take 1) with
        | some edit => return some edit
        | none => Node.mapEdgeOfItems? edge change ns (separators.drop 1)
    | .last =>
      match ← Node.mapEdgeOfItems? edge change ns (separators.drop 1) with
      | some edit => return some edit
      | none =>
        match ← SeparatedEdit.ofSeparators? edge change (separators.take 1) with
        | some edit => return some edit
        | none => return (← Node.mapEdge? edge change n).map (.member n)

end

namespace Node

/-- The tree with other trivia in front of its first token. -/
def withLeading (n : Node) (trivia : TriviaList) : Fresh Node := do
  return (← n.mapEdge? .first (·.withLeading trivia)).getD n

/-- The tree with other trivia behind its last token. -/
def withTrailing (n : Node) (trivia : TriviaList) : Fresh Node := do
  return (← n.mapEdge? .last (·.withTrailing trivia)).getD n

/-- The tree with other trivia at both its edges. -/
def withTrivia (n : Node) (leading trailing : TriviaList) : Fresh Node := do
  (← n.withLeading leading).withTrailing trailing

/-- The tree without the trivia at its edges. -/
def bare (n : Node) : Fresh Node := n.withTrivia .empty .empty

end Node

/-! ## Replacing a token object -/

/-- A part of a tree after a replacement: new, or none where nothing was replaced. -/
abbrev Replaced (α : Type) := Option α

/-- The tokens of a list with `new` in place of an object. -/
def Token.replaceAll (old new : Token) (tokens : List Token) : Replaced (List Token) :=
  if tokens.any (·.isSame old) && !new.isSame old then
    some (tokens.map (fun t => if t.isSame old then new else t))
  else none

mutual

/-- The node with `new` in place of a token object; none where the object is not in it. -/
def Node.replaceToken? (old new : Token) : Node → Fresh (Replaced Node)
  | .mk _ kind slots => do
    match ← Slot.replaceTokenInAll? old new slots with
    | some slots => return some (← Node.fresh kind slots)
    | none => return none

/-- A row of slots with `new` in place of a token object. -/
def Slot.replaceTokenInAll? (old new : Token) : List Slot → Fresh (Replaced (List Slot))
  | [] => return none
  | slot :: slots => do
    let slot' ← Slot.replaceToken? old new slot
    let slots' ← Slot.replaceTokenInAll? old new slots
    if slot'.isNone && slots'.isNone then return none
    return some (slot'.getD slot :: slots'.getD slots)

/-- A slot with `new` in place of a token object. -/
def Slot.replaceToken? (old new : Token) : Slot → Fresh (Replaced Slot)
  | .absent => return none
  | .token t => return (Token.replaceAll old new [t]).map (fun _ => .token new)
  | .node n => return (← Node.replaceToken? old new n).map .node
  | .list members => return (← Node.replaceTokenInList? old new members).map .list
  | .separated members separators => do
    let members' ← Node.replaceTokenInList? old new members
    let separators' := Token.replaceAll old new separators
    if members'.isNone && separators'.isNone then return none
    return some (.separated (members'.getD members) (separators'.getD separators))

/-- A list of nodes with `new` in place of a token object. -/
def Node.replaceTokenInList? (old new : Token) : List Node → Fresh (Replaced (List Node))
  | [] => return none
  | n :: ns => do
    let n' ← Node.replaceToken? old new n
    let ns' ← Node.replaceTokenInList? old new ns
    if n'.isNone && ns'.isNone then return none
    return some (n'.getD n :: ns'.getD ns)

end

/-- **The tree with `new` wherever the token object `old` stands**; the same tree if it stands nowhere. -/
def Node.replaceToken (n : Node) (old new : Token) : Fresh Node := do
  return (← Node.replaceToken? old new n).getD n

end Downlevel

import Downlevel.Tree.Supply
/-!
# Tree.Transform — replacing nodes and tokens of a tree by rules

A `Transformer` says what becomes of a token and of a node: a node may vanish, become another node, or become several.
`walk` transforms what stands directly in a node and builds the node anew only if something came back as another object,
so that unchanged parts stay the objects they were.  A list takes any number of nodes in place of a member; every other
slot takes exactly one, or none where it may be left out.
-/
namespace Downlevel

/-- Why slots do not make a node of a kind. -/
inductive Malformation where
  | slotCount (expected found : Nat)
  | wrongContent (slot : Nat) (shape : SlotShape)
  | otherKind (expected : NodeKind)
  deriving DecidableEq, Repr

/-- Why a part does not fit the slot that it is put in. -/
inductive SlotError where
  | slotFanOut (parent : NodeKind) (slot produced : Nat)
  | requiredSlotRemoved (parent : NodeKind) (slot : Nat)
  | malformed (kind : NodeKind) (cause : Malformation)
  deriving DecidableEq, Repr

def Malformation.message : Malformation → List Char
  | slotCount expected found =>
    "expected ".toList ++ Text.ofNat expected ++ " slots, found ".toList ++ Text.ofNat found
  | wrongContent slot shape =>
    "slot ".toList ++ Text.ofNat slot ++ " does not hold a ".toList ++ shape.name.toList
  | otherKind expected => "expected ".toList ++ expected.name.toList

def SlotError.message : SlotError → List Char
  | slotFanOut parent slot produced =>
    "slot ".toList ++ Text.ofNat slot ++ " of ".toList ++ parent.name.toList
      ++ " requires exactly one node, rewrite produced ".toList ++ Text.ofNat produced
  | requiredSlotRemoved parent slot =>
    "required slot ".toList ++ Text.ofNat slot ++ " of ".toList ++ parent.name.toList ++ " was removed".toList
  | malformed kind cause => kind.name.toList ++ " is malformed: ".toList ++ cause.message

/-- What becomes of a node. -/
inductive Replacement where
  | removed
  | one (node : Node)
  | many (nodes : List Node)

/-- The nodes that take the place. -/
def Replacement.nodes : Replacement → List Node
  | removed => []
  | one n => [n]
  | many ns => ns

/-- What becomes of tokens and nodes, and how an error of the walk is told. -/
structure Transformer (ε σ : Type) where
  ofError : SlotError → ε
  token : Token → Work ε σ Token
  node : Node → Work ε σ Replacement

/-- What a walk made of a part, and whether it differs from what was there. -/
structure Walked (α : Type) where
  value : α
  changed : Bool

/-! ## Nodes that fit their kind -/

/-- The first slot that does not hold what it may. -/
def NodeKind.checkSlotsFrom (kind : NodeKind) : Nat → List SlotShape → List Slot → Except SlotError Unit
  | index, shape :: shapes, slot :: slots =>
    match slot with
    | .absent =>
      if shape.isOptional then checkSlotsFrom kind (index + 1) shapes slots
      else .error (.requiredSlotRemoved kind index)
    | slot =>
      if slot.fits shape then checkSlotsFrom kind (index + 1) shapes slots
      else .error (.malformed kind (.wrongContent index shape))
  | _, _, _ => .ok ()

def NodeKind.checkSlots (kind : NodeKind) (slots : List Slot) : Except SlotError Unit :=
  if kind.shapes.length ≠ slots.length then .error (.malformed kind (.slotCount kind.shapes.length slots.length))
  else kind.checkSlotsFrom 0 kind.shapes slots

/-- A new node of a kind, if the slots make one. -/
def Node.make? (kind : NodeKind) (slots : List Slot) : Fresh (Except SlotError Node) := do
  match kind.checkSlots slots with
  | .ok () => return .ok (← Node.fresh kind slots)
  | .error e => return .error e

namespace Transformer

variable {ε σ : Type}

/-! ## One level -/

/-- The one node that takes a place, or none where none is needed. -/
def single (r : Transformer ε σ) (parent : NodeKind) (slot : Nat) (optional : Bool) :
    Replacement → Work ε σ (Option Node)
  | .one n => return some n
  | .removed => if optional then return none else .fail (r.ofError (.requiredSlotRemoved parent slot))
  | .many [n] => return some n
  | .many ns => .fail (r.ofError (.slotFanOut parent slot ns.length))

/-- Transforms the members of a list; a member may make room for any number of nodes. -/
def walkList (r : Transformer ε σ) : List Node → Work ε σ (Walked (List Node))
  | [] => return ⟨[], false⟩
  | n :: ns => do
    let replacement ← r.node n
    let rest ← r.walkList ns
    match replacement with
    | .one n' => return ⟨n' :: rest.value, !n'.isSame n || rest.changed⟩
    | .removed => return ⟨rest.value, true⟩
    | .many ns' => return ⟨ns' ++ rest.value, true⟩

def walkToken (r : Transformer ε σ) (t : Token) : Work ε σ (Walked Token) := do
  let t' ← r.token t
  return ⟨t', !t'.isSame t⟩

def walkSeparators (r : Transformer ε σ) : List Token → Work ε σ (Walked (List Token))
  | [] => return ⟨[], false⟩
  | t :: ts => do
    let t' ← r.walkToken t
    let rest ← r.walkSeparators ts
    return ⟨t'.value :: rest.value, t'.changed || rest.changed⟩

/-- Transforms a member of a separated list, which must stay one node. -/
def walkMember (r : Transformer ε σ) (parent : NodeKind) (slot : Nat) (n : Node) : Work ε σ (Walked Node) := do
  match ← r.single parent slot false (← r.node n) with
  | some n' => return ⟨n', !n'.isSame n⟩
  | none => .fail (r.ofError (.requiredSlotRemoved parent slot))

/-- Transforms the items of a separated list in document order. -/
def walkSeparated (r : Transformer ε σ) (parent : NodeKind) (slot : Nat) :
    List Node → List Token → Work ε σ (Walked (List Node × List Token))
  | [], separators => do
    let rest ← r.walkSeparators separators
    return ⟨([], rest.value), rest.changed⟩
  | n :: ns, [] => do
    let n' ← r.walkMember parent slot n
    let rest ← r.walkSeparated parent slot ns []
    return ⟨(n'.value :: rest.value.1, rest.value.2), n'.changed || rest.changed⟩
  | n :: ns, t :: ts => do
    let n' ← r.walkMember parent slot n
    let t' ← r.walkToken t
    let rest ← r.walkSeparated parent slot ns ts
    return ⟨(n'.value :: rest.value.1, t'.value :: rest.value.2), n'.changed || t'.changed || rest.changed⟩

def walkSlot (r : Transformer ε σ) (parent : NodeKind) (index : Nat) (optional : Bool) :
    Slot → Work ε σ (Walked Slot)
  | .absent => return ⟨.absent, false⟩
  | .token t => do
    let t' ← r.walkToken t
    return ⟨.token t'.value, t'.changed⟩
  | .node n => do
    match ← r.single parent index optional (← r.node n) with
    | some n' => return ⟨.node n', !n'.isSame n⟩
    | none => return ⟨.absent, true⟩
  | .list members => do
    let members' ← r.walkList members
    return ⟨.list members'.value, members'.changed⟩
  | .separated members separators => do
    let items ← r.walkSeparated parent index members separators
    return ⟨.separated items.value.1 items.value.2, items.changed⟩

/-- Transforms a row of slots of a node from the one with the given number on. -/
def walkSlots (r : Transformer ε σ) (parent : NodeKind) : Nat → List Slot → Work ε σ (Walked (List Slot))
  | _, [] => return ⟨[], false⟩
  | index, slot :: slots => do
    let slot' ← r.walkSlot parent index (parent.shapes[index]?.any SlotShape.isOptional) slot
    let rest ← r.walkSlots parent (index + 1) slots
    return ⟨slot'.value :: rest.value, slot'.changed || rest.changed⟩

/-- A new node of a kind; slots that make none are an error. -/
def make (r : Transformer ε σ) (kind : NodeKind) (slots : List Slot) : Work ε σ Node := do
  match ← (Node.make? kind slots : Fresh (Except SlotError Node)) with
  | .ok n => return n
  | .error e => .fail (r.ofError e)

/-- **Transforms what stands directly in a node.**  The node is built anew only if something changed. -/
def walk (r : Transformer ε σ) (n : Node) : Work ε σ Node := do
  let slots ← r.walkSlots n.kind 0 n.slots
  if slots.changed then r.make n.kind slots.value else return n

/-- The one node that a whole tree becomes. -/
def root (r : Transformer ε σ) (n : Node) : Work ε σ Node := do
  match ← r.node n with
  | .one n' => return n'
  | .removed => .fail (r.ofError (.slotFanOut n.kind 0 0))
  | .many [n'] => return n'
  | .many ns => .fail (r.ofError (.slotFanOut n.kind 0 ns.length))

end Transformer

/-! ## Whole trees -/

/-- What becomes of a node, given the walk that transforms what stands in it. -/
abbrev NodeRule (ε σ : Type) := Work ε σ Node → Node → Work ε σ Replacement

/-- The rule that only transforms what stands in a node. -/
def NodeRule.descend {ε σ : Type} : NodeRule ε σ := fun walk _ => return .one (← walk)

/-- The transformer that applies a rule so many levels down. -/
def Transformer.ofRuleUpTo {ε σ : Type} (ofError : SlotError → ε) (token : Token → Work ε σ Token)
    (rule : NodeRule ε σ) : Nat → Transformer ε σ
  | 0 => ⟨ofError, token, fun n => return .one n⟩
  | levels + 1 =>
    let below := Transformer.ofRuleUpTo ofError token rule levels
    ⟨ofError, token, fun n => rule (below.walk n) n⟩

/-- Transforms a tree by a rule for nodes and one for tokens. -/
def Node.transform {σ : Type} (n : Node) (token : Token → Work SlotError σ Token)
    (rule : NodeRule SlotError σ) : Work SlotError σ Node :=
  (Transformer.ofRuleUpTo (fun e => e) token rule n.height).root n

/-- Transforms the tokens of a tree in document order. -/
def Node.transformTokens {σ : Type} (n : Node) (token : Token → Work SlotError σ Token) : Work SlotError σ Node :=
  n.transform token NodeRule.descend

/-- The tree with `new` wherever the node object `old` stands. -/
def Node.replaceNode (n old new : Node) : Work SlotError Unit Node :=
  n.transform (fun t => return t) (fun walk m => if m.isSame old then return .one new else return .one (← walk))

end Downlevel

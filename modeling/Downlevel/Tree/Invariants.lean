import Downlevel.Tree.Basic
/-!
# Tree.Invariants — what holds of every sound tree

The slots of each node fit its kind, widths add up, a separated list has one more member than separators unless it is
empty, and no token object stands at two places.  `checkInvariants` walks a tree in document order and reports the first
fault; `checkFidelity` compares the text of a tree with the text that it was read from.
-/
namespace Downlevel

/-- What may fail to hold of a tree. -/
inductive Invariant where
  | shape
  | width
  | separatedListArity
  | tokenUniqueness
  | fullFidelity
  deriving DecidableEq, Repr

def Invariant.name : Invariant → String
  | shape => "Shape"
  | width => "Width"
  | separatedListArity => "SeparatedListArity"
  | tokenUniqueness => "TokenUniqueness"
  | fullFidelity => "FullFidelity"

/-- What exactly is wrong. -/
inductive Fault where
  | slotCount (found expected : Nat)
  | absentSlot (name : String)
  | nodeWidth (cached measured : Nat)
  | listWidth (cached measured : Nat)
  | arity (members separators : Nat)
  | repeatedToken (token : Token)
  | differentText (rendered source : Nat)
  deriving DecidableEq, Repr

namespace Fault

def invariant : Fault → Invariant
  | slotCount _ _ => .shape
  | absentSlot _ => .shape
  | nodeWidth _ _ => .width
  | listWidth _ _ => .width
  | arity _ _ => .separatedListArity
  | repeatedToken _ => .tokenUniqueness
  | differentText _ _ => .fullFidelity

def detail : Fault → List Char
  | slotCount found expected => Text.ofNat found ++ " slots, schema has ".toList ++ Text.ofNat expected
  | absentSlot name => "required slot `".toList ++ name.toList ++ "` is absent".toList
  | nodeWidth cached measured =>
    "cached full width ".toList ++ Text.ofNat cached ++ " but children sum to ".toList ++ Text.ofNat measured
  | listWidth cached measured =>
    "list caches full width ".toList ++ Text.ofNat cached ++ " but members sum to ".toList ++ Text.ofNat measured
  | arity members separators =>
    Text.ofNat members ++ " nodes with ".toList ++ Text.ofNat separators ++ " separators".toList
  | repeatedToken token => "token ".toList ++ token.shown ++ " appears more than once".toList
  | differentText rendered source =>
    "rendered ".toList ++ Text.ofNat rendered ++ " bytes, source has ".toList ++ Text.ofNat source ++ " bytes".toList

end Fault

/-- A fault with the kind of the node that has it and the offset at which it was met. -/
structure Violation where
  fault : Fault
  kind : NodeKind
  offset : Nat
  deriving DecidableEq, Repr

def Violation.message (v : Violation) : List Char :=
  v.fault.invariant.name.toList ++ " invariant violated at ".toList ++ v.kind.name.toList ++ " (offset ".toList
    ++ Text.ofNat v.offset ++ "): ".toList ++ v.fault.detail

/-- How far a check has come: the token objects met, and the bytes in front. -/
structure CheckState where
  seen : List ObjectId
  offset : Nat

/-- A check that stops at the first fault. -/
abbrev Check := StateT CheckState (Except Violation)

namespace Check

/-- The offset reached. -/
def offset : Check Nat := do return (← get).offset

def faultAt {α : Type} (offset : Nat) (kind : NodeKind) (fault : Fault) : Check α :=
  throw ⟨fault, kind, offset⟩

/-- Stops with a fault at the offset reached. -/
def fault {α : Type} (kind : NodeKind) (fault : Fault) : Check α := do
  faultAt (← offset) kind fault

/-- A token is passed, once. -/
def token (parent : NodeKind) (t : Token) : Check Unit := do
  let s ← get
  if s.seen.contains t.id then fault parent (.repeatedToken t)
  set (⟨t.id :: s.seen, s.offset + t.fullWidth⟩ : CheckState)

/-- Since `start` as many bytes were passed as a list has. -/
def listWidth (parent : NodeKind) (start width : Nat) : Check Unit := do
  let measured := (← offset) - start
  if measured ≠ width then faultAt start parent (.listWidth width measured)

/-- A separated list has one more member than separators, or nothing at all. -/
def arity (parent : NodeKind) (members separators : Nat) : Check Unit := do
  if ¬ (members = 0 ∧ separators = 0) ∧ members ≠ separators + 1 then fault parent (.arity members separators)

/-- An absent slot is one that may be left out. -/
def absentSlot (kind : NodeKind) (name : String) (shape : SlotShape) : Check Unit := do
  if ¬ shape.isOptional then fault kind (.absentSlot name)

end Check

mutual

def Node.check : Node → Check Unit
  | .mk id kind slots => do
    let start ← Check.offset
    if kind.schema.length ≠ slots.length then Check.fault kind (.slotCount slots.length kind.schema.length)
    Slot.checkAll kind kind.schema slots
    let measured := (← Check.offset) - start
    let width := (Node.mk id kind slots).fullWidth
    if measured ≠ width then Check.faultAt start kind (.nodeWidth width measured)

/-- Checks a row of slots of a node against what its kind has. -/
def Slot.checkAll (kind : NodeKind) : List (String × SlotShape) → List Slot → Check Unit
  | (name, shape) :: schema, slot :: slots => do
    match slot with
    | .absent => Check.absentSlot kind name shape
    | slot => Slot.check kind slot
    Slot.checkAll kind schema slots
  | _, _ => return ()

def Slot.check (kind : NodeKind) : Slot → Check Unit
  | .absent => return ()
  | .token t => Check.token kind t
  | .node n => Node.check n
  | .list members => do
    let start ← Check.offset
    Node.checkList members
    Check.listWidth kind start (Node.listFullWidth members)
  | .separated members separators => do
    Check.arity kind members.length separators.length
    let start ← Check.offset
    Node.checkSeparated kind members separators
    Check.listWidth kind start (Node.listFullWidth members + Token.widths separators)

def Node.checkList : List Node → Check Unit
  | [] => return ()
  | n :: ns => do
    Node.check n
    Node.checkList ns

/-- Checks the items of a separated list in document order. -/
def Node.checkSeparated (kind : NodeKind) : List Node → List Token → Check Unit
  | [], separators => separators.forM (Check.token kind)
  | n :: ns, separators => do
    Node.check n
    match separators with
    | [] => Node.checkSeparated kind ns []
    | s :: ss =>
      Check.token kind s
      Node.checkSeparated kind ns ss

end

/-- **The first fault of a tree in document order**, if it has one. -/
def Node.checkInvariants (n : Node) : Except Violation Unit := do
  let _ ← (Node.check n).run ⟨[], 0⟩

/-- The bytes that two texts have in common at the front. -/
def commonBytes : List UInt8 → List UInt8 → Nat
  | a :: as, b :: bs => if a = b then commonBytes as bs + 1 else 0
  | _, _ => 0

def utf8Bytes (text : List Char) : List UInt8 := text.flatMap String.utf8EncodeChar

/-- The text of a tree is the text that it was read from. -/
def Node.checkFidelity (n : Node) (source : List Char) : Except Violation Unit :=
  if n.fullText = source then .ok ()
  else
    .error ⟨.differentText (Text.width n.fullText) (Text.width source), n.kind,
      commonBytes (utf8Bytes n.fullText) (utf8Bytes source)⟩

end Downlevel

import Downlevel.Grammar.Reading
/-!
# Grammar.Parts — nodes read slot by slot

A `Part` reads what one slot holds.  `node` reads the slots of a kind one after the other and builds the node, so a rule
of the grammar is the list of its parts; `nodeAfter` does it with slots that were read before the kind was known.  The
loops read as many members as there are, at most `Descent.loop`, which no text outruns.
-/
namespace Downlevel

/-- A reader of what one slot holds. -/
abbrev Part := Parser Slot

/-- The parts of the grammar that lead back to themselves. -/
inductive Goal where
  | type
  | assignment (allowIn : Bool)
  | unary
  | binary (above : Nat) (allowIn : Bool)
  | creation
  | statement
  | moduleElement
  deriving DecidableEq, Repr

/-- How the parts of the grammar reach one another. -/
structure Descent where
  /-- The turns that a loop may take. -/
  loop : Nat
  /-- Reads a part one level of recursion down. -/
  parse : Goal → Parser Node

namespace Parser

/-! ## Parts -/

def word (k : Keyword) : Part := Slot.token <$> token (.keyword k)

def mark (p : Punctuation) : Part := Slot.token <$> token (.punctuation p)

def current : Part := Slot.token <$> take

def name : Part := Slot.token <$> identifier

/-- A name that may be a reserved word. -/
def member : Part := Slot.token <$> memberName

/-- The name of a member: a word, a string or a number. -/
def property : Part := Slot.token <$> propertyName

def statementEnd : Part := Slot.token <$> semicolon

def optional (kind : TokenKind) : Part := Slot.ofToken? <$> token? kind

def optionalMark (p : Punctuation) : Part := optional (.punctuation p)

def inner (part : Parser Node) : Part := Slot.node <$> part

/-- A slot that is left out. -/
def nothing : Part := return .absent

/-- A node, if a test of the place holds. -/
def innerIf (test : Reading → Bool) (part : Parser Node) : Part := do
  if test (← here) then inner part else nothing

/-- A node, if the current token is a given reserved word. -/
def innerIfWord (k : Keyword) (part : Parser Node) : Part := innerIf (fun r => r.kind == .keyword k) part

/-- A node, if the current token is a given punctuation mark. -/
def innerIfMark (p : Punctuation) (part : Parser Node) : Part := innerIf (fun r => r.kind == .punctuation p) part

/-! ## Nodes -/

/-- Parts one after the other. -/
def parts : List Part → Parser (List Slot)
  | [] => return []
  | part :: rest => do
    let slot ← part
    return slot :: (← parts rest)

/-- A node of a kind, given its first slots and the parts that read the others. -/
def nodeAfter (kind : NodeKind) (before : List Slot) (rest : List Part) : Parser Node := do
  let after ← parts rest
  Node.fresh kind (before ++ after)

/-- A node of a kind, given the parts that read its slots. -/
def node (kind : NodeKind) (slots : List Part) : Parser Node := nodeAfter kind [] slots

/-- The node that stands where an element of a list was left out. -/
def omitted : Parser Node := Node.fresh .omittedExpression []

/-! ## Lists -/

/-- Members until a test of the place holds, in at most so many turns. -/
def membersUntil (stop : Reading → Bool) (element : Parser Node) : Nat → Parser (List Node)
  | 0 => fault .tooDeep
  | turns + 1 => do
    if stop (← here) then return []
    let n ← element
    return n :: (← membersUntil stop element turns)

/-- The place is in front of a closing brace or the end of the file. -/
def atBlockEnd (r : Reading) : Bool := r.kind == .punctuation .closeBrace || r.kind == .endOfFile

/-- The members of a block up to its closing brace. -/
def members (d : Descent) (element : Parser Node) : Part := Slot.list <$> membersUntil atBlockEnd element d.loop

/-- A list and the separators between its members, with one more member and one more separator in front. -/
def separatedCons (n : Node) (t : Token) (rest : List Node × List Token) : List Node × List Token :=
  (n :: rest.1, t :: rest.2)

/-- One or more members with commas in between, in at most so many turns. -/
def commaListUpTo (element : Parser Node) : Nat → Parser (List Node × List Token)
  | 0 => fault .tooDeep
  | turns + 1 => do
    let n ← element
    match ← token? (.punctuation .comma) with
    | none => return ([n], [])
    | some t => return separatedCons n t (← commaListUpTo element turns)

/-- One or more members with commas in between. -/
def commaList (d : Descent) (element : Parser Node) : Part := do
  let (ns, ts) ← commaListUpTo element d.loop
  return .separated ns ts

/-- Members with commas in between up to a closing mark, in at most so many turns.  A comma behind the last member,
where it is allowed, is followed by an omitted one. -/
def delimitedUpTo (close : Punctuation) (trailingComma : Bool) (element : Parser Node) :
    Nat → Parser (List Node × List Token)
  | 0 => fault .tooDeep
  | turns + 1 => do
    let n ← element
    match ← token? (.punctuation .comma) with
    | none => return ([n], [])
    | some t =>
      if ← seesMark close then
        if trailingComma then return ([n, ← omitted], [t]) else expected .element
      else return separatedCons n t (← delimitedUpTo close trailingComma element turns)

/-- No or more members with commas in between up to a closing mark. -/
def delimited (d : Descent) (close : Punctuation) (trailingComma : Bool) (element : Parser Node) : Part := do
  if ← seesMark close then return .separated [] []
  let (ns, ts) ← delimitedUpTo close trailingComma element d.loop
  return .separated ns ts

/-- A node that grows to the left: `step` extends what was read so far, as often as it can. -/
def growUpTo (step : Node → Parser (Option Node)) : Nat → Node → Parser Node
  | 0, _ => fault .tooDeep
  | turns + 1, n => do
    match ← step n with
    | some larger => growUpTo step turns larger
    | none => return n

/-- A node that grows to the left as often as `step` can extend it. -/
def grow (d : Descent) (step : Node → Parser (Option Node)) (n : Node) : Parser Node := growUpTo step d.loop n

end Parser

end Downlevel

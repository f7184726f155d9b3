import Downlevel.Grammar.Declarations
/-!
# Grammar.Program — reading a whole text

`Goal.read` says which rule reads which goal, and `readUpTo` ties the rules together: recursion goes one level down at a
time, and no text needs more levels than a small multiple of its length.
-/
namespace Downlevel

namespace Parser

/-- The rule that reads a goal. -/
def goal (d : Descent) : Goal → Parser Node
  | .type => typeNode d
  | .assignment allowIn => assignment d allowIn
  | .unary => unary d
  | .binary above allowIn => binary d above allowIn
  | .creation => creation d
  | .statement => statement d
  | .moduleElement => moduleElement d

/-- Reads a goal, at most so many levels of recursion deep. -/
def goalUpTo (loop : Nat) : Nat → Goal → Parser Node
  | 0, _ => fault .tooDeep
  | levels + 1, g => goal ⟨loop, goalUpTo loop levels⟩ g

/-- The rules of the grammar, which reach one another at most so many levels deep. -/
def descent (loop levels : Nat) : Descent := ⟨loop, goalUpTo loop levels⟩

/-- The module elements of a text and its end. -/
def program (d : Descent) : Parser Node :=
  node .sourceUnit
    [Slot.list <$> membersUntil (fun r => r.kind == .endOfFile) (d.parse .moduleElement) d.loop, endOfFile]
where
  /-- The end of the file, which is never consumed. -/
  endOfFile : Part := do
    let r ← here
    Slot.token <$> (Token.fresh r.current : Fresh Token)

end Parser

/-- The turns that a loop needs for a text at most. -/
def loopsFor (text : List Char) : Nat := text.length + 2

/-- The levels of recursion that a text needs at most. -/
def levelsFor (text : List Char) : Nat := 8 * (text.length + 2)

/-- Reads a text as a program, numbering the objects from `next` on: the tree, and the next number. -/
def parseFrom (text : List Char) (next : ObjectId) : Except ParseError Node × ObjectId :=
  match Reading.ofText text with
  | .error e => (.error e, next)
  | .ok reading =>
    let (outcome, _, next) := (Parser.program (Parser.descent (loopsFor text) (levelsFor text))).runFrom reading next
    (outcome, next)

/-- **Reads a text as a program.** -/
def parse (text : List Char) : Except ParseError Node := (parseFrom text 0).1

end Downlevel

import Downlevel.Text.Basic
/-!
# Text.Lines — the lines of a text by byte offset

A line ends with `\n`, `\r` or the two together, and the next one starts right behind.  `LineMap` holds the offsets at
which lines start; `search` looks an offset up among them, and the line that holds the offset (`lineOf`) is the one that
was found, or the one before the place where none was.
-/
namespace Downlevel

/-- A line and a byte offset in it, both counted from zero. -/
structure Position where
  line : Nat
  character : Nat
  deriving DecidableEq, Repr

/-- The lines and characters that a position can tell apart; it counts both with 32 bits. -/
def Position.limit : Nat := UInt32.size

/-- The offsets at which the lines of a text start. -/
structure LineMap where
  starts : List Nat
  deriving DecidableEq, Repr

namespace LineMap

/-- The line starts behind the terminators of a text that stands at `offset`. -/
def startsBehind (offset : Nat) : List Char → List Nat
  | [] => []
  | '\r' :: '\n' :: cs => (offset + 2) :: startsBehind (offset + 2) cs
  | c :: cs =>
    if c = '\n' ∨ c = '\r' then (offset + 1) :: startsBehind (offset + 1) cs
    else startsBehind (offset + c.utf8Size) cs

/-- The line starts of a text: the text's own start, then one behind each terminator. -/
def ofText (text : List Char) : LineMap := ⟨0 :: startsBehind 0 text⟩

def count (m : LineMap) : Nat := m.starts.length

/-- The line that starts at an offset, or else the first line that starts behind it. -/
def search (m : LineMap) (offset : Nat) : Except Nat Nat :=
  let next := (m.starts.takeWhile (· < offset)).length
  if m.starts[next]? = some offset then .ok next else .error next

/-- The line that holds an offset; an offset past the end is on the last line. -/
def lineOf (m : LineMap) (offset : Nat) : Nat :=
  match m.search offset with
  | .ok line => line
  | .error next => next - 1

/-- Where a line starts, if there is such a line. -/
def start? (m : LineMap) (line : Nat) : Option Nat := m.starts[line]?

def startOf (m : LineMap) (offset : Nat) : Nat := (m.start? (m.lineOf offset)).getD 0

/-- The line of an offset and its distance from the start of that line. -/
def positionOf (m : LineMap) (offset : Nat) : Position :=
  ⟨m.lineOf offset % Position.limit, (offset - m.startOf offset) % Position.limit⟩

end LineMap

end Downlevel

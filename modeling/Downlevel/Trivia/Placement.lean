import Downlevel.Layout.Options
import Downlevel.Trivia.Basic
/-!
# Trivia.Placement — moving lines and the comments on them

Only the blanks at the start of a line place what follows, so a line is moved by changing those (`Shift`).  The other
functions lay out the trivia of a token that gets a new place: at a column of its own line, at the end of a line, or
with one line for each comment.  None of them drops a comment or changes the order of comments.
-/
namespace Downlevel

/-! ## Shifting lines -/

/-- A move of lines by some columns; a move to the left stops at a column. -/
structure Shift where
  options : LayoutOptions
  delta : Int
  floor : Nat

namespace Shift

/-- Where a line that starts at `column` starts after the move. -/
def target (s : Shift) (column : Nat) : Nat :=
  if 0 ≤ s.delta then column + s.delta.toNat
  else if column ≤ s.floor then column
  else max (column - s.delta.natAbs) s.floor

/-- The blanks in front of a line that starts at `column`. -/
def blanks (s : Shift) (column : Nat) : List Trivia :=
  if 0 < column then [⟨.whitespace, s.options.indentation column⟩] else []

/-- The outcome of moving the lines that start in a list of trivia. -/
structure Outcome where
  items : List Trivia
  changed : Bool
  /-- The list ends at the start of a line. -/
  atLineStart : Bool

/-- Moves the lines that start among `items`; the flag says whether one starts in front of them. -/
def items (s : Shift) : Bool → List Trivia → Outcome
  | start, [] => ⟨[], false, start⟩
  | start, item :: rest =>
    if item.isNewLine then
      let r := s.items true rest
      { r with items := item :: r.items }
    else
      let r := s.items false rest
      if start then
        -- Blanks that stay keep their characters, tabs too; blanks that move are written anew.
        if item.isWhitespace then
          let column := s.options.columnAfter 0 item.text
          if s.target column = column then { r with items := item :: r.items }
          else { r with items := s.blanks (s.target column) ++ r.items, changed := true }
        else
          -- A line that starts with anything else starts at column zero.
          let lead := s.blanks (s.target 0)
          { r with items := lead ++ item :: r.items, changed := r.changed || !lead.isEmpty }
      else { r with items := item :: r.items }

/-- Moves the lines of a list of trivia; a line start left open belongs to the text behind, if there is one. -/
def apply (s : Shift) (atLineStart beforeText : Bool) (t : TriviaList) : Outcome :=
  let r := s.items atLineStart t.toList
  if beforeText && r.atLineStart then
    let lead := s.blanks (s.target 0)
    ⟨r.items ++ lead, r.changed || !lead.isEmpty, false⟩
  else r

/-- The moved list if some line moved. -/
def Outcome.result? (r : Outcome) : Option TriviaList := if r.changed then some (TriviaList.ofList r.items) else none

end Shift

namespace TriviaList

/-- Leading trivia that begins a line, its lines moved by `delta` columns and no further left than one level. -/
def shifted (t : TriviaList) (delta : Int) (o : LayoutOptions) : TriviaList :=
  if delta = 0 then t
  else
    let s : Shift := ⟨o, delta, o.indentSize⟩
    (s.apply true true t).result?.getD t

/-! ## Blanks and ends of line -/

/-- The blanks that reach a column. -/
def indentation (column : Nat) (o : LayoutOptions) : TriviaList := space (o.indentation column)

/-- One end of line. -/
def newLine (o : LayoutOptions) : TriviaList := single ⟨.newLine, o.newLine⟩

/-- The blanks that reach a column, as items. -/
def indentItems (column : Nat) (o : LayoutOptions) : List Trivia :=
  if (o.indentation column).isEmpty then [] else [⟨.whitespace, o.indentation column⟩]

/-! ## New places -/

/-- The items with every line of theirs, and the line of the text behind, started by `indent`. -/
def relocatedItems (indent : List Trivia) : Bool → List Trivia → List Trivia
  | start, [] => if start then indent else []
  | start, item :: rest =>
    if item.isNewLine then item :: relocatedItems indent true rest
    else if start then
      if item.isWhitespace then indent ++ relocatedItems indent false rest
      else indent ++ item :: relocatedItems indent false rest
    else item :: relocatedItems indent false rest

/-- Leading trivia moved to a line that starts at `column`; the lines of its comments start there too. -/
def relocated (t : TriviaList) (column : Nat) (o : LayoutOptions) : TriviaList :=
  ofList (relocatedItems (indentItems column o) true t.toList)

/-- Trailing trivia that ends its line: as it is, or with an end of line in place of the blanks at its end. -/
def endingLine (t : TriviaList) (o : LayoutOptions) : TriviaList :=
  if t.hasNewLine then t
  else ofList ((t.toList.reverse.dropWhile Trivia.isWhitespace).reverse ++ [⟨.newLine, o.newLine⟩])

/-- One line at `column` for each comment, then the indentation of the token behind. -/
def commentLines (t : TriviaList) (column : Nat) (o : LayoutOptions) : TriviaList :=
  let indent := indentItems column o
  ofList ((t.toList.filter Trivia.isComment).flatMap (fun comment => indent ++ [comment, ⟨.newLine, o.newLine⟩])
    ++ indent)

/-- The comments of trailing trivia, a space before each, and an end of line. -/
def trailingCommentLine (t : TriviaList) (o : LayoutOptions) : TriviaList :=
  ofList ((t.toList.filter Trivia.isComment).flatMap (fun comment => [⟨.whitespace, [' ']⟩, comment])
    ++ [⟨.newLine, o.newLine⟩])

/-- Leading trivia cut behind its last end of line: whole lines, and the indentation of the token. -/
def splitLines (t : TriviaList) : TriviaList × TriviaList :=
  if t.toList.any Trivia.isNewLine then
    let tail := (t.toList.reverse.takeWhile (fun item => !item.isNewLine)).reverse
    (ofList (t.toList.take (t.toList.length - tail.length)), ofList tail)
  else (empty, t)

end TriviaList

end Downlevel

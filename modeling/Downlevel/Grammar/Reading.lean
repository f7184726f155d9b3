import Downlevel.Grammar.Error
import Downlevel.Lexer.Lexeme
import Downlevel.Tree.Supply
/-!
# Grammar.Reading — one token ahead of the text

A `Reading` stands in front of one token that is already cut off.  `take` is the only step that consumes: it cuts the
next token first, so a lexical error is met one token early.  Everything else looks (`kind`, `isWord`, `peek`), fails
(`expected`), or gives a token for free where a semicolon may be left out (`semicolon`).  `attempt` goes back to where
it started unless its reader succeeds; what it has counted of the nesting stays counted.
-/
namespace Downlevel

/-- A place in front of a token. -/
structure Reading where
  /-- The text from the trivia of the current token on. -/
  here : List Char
  /-- The offset of that text. -/
  start : Nat
  /-- The token in front of which the reading stands. -/
  current : Lexeme
  /-- The text behind the current token. -/
  rest : List Char
  /-- The token before the current one is the last on its line. -/
  previousEndsLine : Bool
  /-- The levels of nesting entered. -/
  depth : Nat

namespace Reading

def kind (r : Reading) : TokenKind := r.current.kind

/-- The offset of the characters of the current token. -/
def tokenStart (r : Reading) : Nat := r.start + r.current.leading.fullWidth

/-- The offset behind the current token. -/
def stop (r : Reading) : Nat := r.start + r.current.fullWidth

def startsLine (r : Reading) : Bool := r.previousEndsLine || r.current.leading.hasNewLine

/-- The current token is the name `word`, which is no reserved word. -/
def isWord (r : Reading) (word : String) : Bool := r.kind == .identifier && r.current.text == word.toList

/-- The current token may be the name of a member. -/
def isPropertyName (r : Reading) : Bool := r.kind.isWord || r.kind == .string || r.kind == .number

/-- A semicolon may be left out in front of the current token. -/
def mayEndStatement (r : Reading) : Bool :=
  r.kind == .punctuation .closeBrace || r.kind == .endOfFile || r.startsLine

def errorHere (r : Reading) (fault : ParseFault) : ParseError := ⟨fault, r.tokenStart⟩

/-- Something else is asked for than the current token. -/
def expected (r : Reading) (what : Expectation) : ParseError :=
  r.errorHere (.expected what (if r.kind = .endOfFile then none else some r.current.text))

/-- The place in front of a token that was cut off `here`, which stands at `start`. -/
def ofScanned (here : List Char) (start : Nat) (scanned : Lexer.Scanned) (previousEndsLine : Bool) (depth : Nat) :
    Except ParseError Reading :=
  match scanned.diagnostic with
  | some d => .error ⟨.lexical d.error, d.offset⟩
  | none => .ok ⟨here, start, scanned.lexeme, scanned.rest, previousEndsLine, depth⟩

/-- The place at the start of a text. -/
def ofText (text : List Char) : Except ParseError Reading := ofScanned text 0 (Lexer.scan 0 text) false 0

/-- The place behind the current token. -/
def next (r : Reading) : Except ParseError Reading :=
  ofScanned r.rest r.stop (Lexer.scan r.stop r.rest) r.current.trailing.hasNewLine r.depth

/-- The place with the current token cut anew as a regular expression literal. -/
def asRegularExpression (r : Reading) : Except ParseError Reading :=
  ofScanned r.here r.start (Lexer.rescanSlash r.start r.here) r.previousEndsLine r.depth

/-- A test of the place behind the current token; a place that cannot be reached fails it. -/
def nextHas (r : Reading) (test : Reading → Bool) : Bool :=
  match r.next with
  | .ok next => test next
  | .error _ => false

def nextIs (r : Reading) (kind : TokenKind) : Bool := r.nextHas (fun next => next.kind == kind)

end Reading

/-- A reader of a part of a program. -/
abbrev Parser := Work ParseError Reading

namespace Parser

variable {α : Type}

/-- The levels of nesting that a program may have. -/
def maxDepth : Nat := 500

/-! ## Looking -/

/-- The place where the reader stands. -/
def here : Parser Reading := Work.own

def kind : Parser TokenKind := do return (← here).kind

def sees (kind : TokenKind) : Parser Bool := do return (← here).kind == kind

/-- The current token is a given reserved word. -/
def seesWord (k : Keyword) : Parser Bool := sees (.keyword k)

def seesMark (p : Punctuation) : Parser Bool := sees (.punctuation p)

/-! ## Failing -/

/-- A fault at the current token. -/
def fault (f : ParseFault) : Parser α := do Work.fail ((← here).errorHere f)

/-- Something else is asked for than the current token. -/
def expected (what : Expectation) : Parser α := do Work.fail ((← here).expected what)

/-! ## Taking tokens -/

/-- Consumes the current token. -/
def take : Parser Token := do
  let r ← here
  -- The token behind is cut first, so a lexical error in it stops the reader in front of the current one.
  let next ← Work.ofExcept r.next
  let t ← Token.fresh r.current
  Work.setOwn next
  return t

/-- Cuts the current token anew as a regular expression literal. -/
def rescan : Parser Unit := do
  let r ← here
  Work.setOwn (← Work.ofExcept r.asRegularExpression)

def token (kind : TokenKind) : Parser Token := do
  if ← sees kind then take else expected (.token kind)

def token? (kind : TokenKind) : Parser (Option Token) := do
  if ← sees kind then some <$> take else return none

/-- A name. -/
def identifier : Parser Token := do
  if ← sees .identifier then take else expected .identifier

/-- A name that may be a reserved word, taken as a plain name. -/
def memberName : Parser Token := do
  if (← here).kind.isWord then (← take).toName else expected .identifier

/-- The name of a member: a word, a string or a number. -/
def propertyName : Parser Token := do
  if (← here).isPropertyName then (← take).toName else expected .propertyName

/-- The semicolon that was left out. -/
def emptySemicolon : Parser Token := Token.fresh (.empty (.punctuation .semicolon))

/-- A semicolon, or an empty one where it may be left out. -/
def semicolon : Parser Token := do
  let r ← here
  if r.kind = .punctuation .semicolon then take
  else if r.mayEndStatement then emptySemicolon
  else expected (.token (.punctuation .semicolon))

/-! ## Nesting and going back -/

/-- Counts a level of nesting. -/
def enter : Parser Unit := do
  Work.modifyOwn (fun r => { r with depth := r.depth + 1 })
  if maxDepth < (← here).depth then fault .tooDeep

/-- A part at the end of which, however it ends, a level of nesting is left. -/
def leaving (part : Parser α) : Parser α := part.andThen (fun r => { r with depth := r.depth - 1 })

/-- A part that lies one level deeper. -/
def nested (part : Parser α) : Parser α := do
  enter
  leaving part

/-- A part if it can be read up to a place that passes a test; else none, from where the reader stood before. -/
def attempt (part : Parser α) (accept : Reading → Bool) : Parser (Option α) := fun s =>
  let back (after : Supplied Reading) : Supplied Reading :=
    -- Numbers that were given out stay so, and a level that was entered in vain stays counted.
    { after with own := { s.own with depth := after.own.depth } }
  match part s with
  | .ok a after => if accept after.own then .ok (some a) after else .ok none (back after)
  | .error _ after => .ok none (back after)

end Parser

end Downlevel

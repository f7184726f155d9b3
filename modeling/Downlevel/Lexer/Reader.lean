import Downlevel.Lexer.Lexeme
/-!
# Lexer.Reader — reading tokens one at a time

A `Reader` stands at an offset of a text and keeps the first error it met until someone takes it.  It can be set to any
offset, and it can read the token at an offset again as a regular expression literal.
-/
namespace Downlevel

/-- A text, the offset of the next token, and the first error that was not taken yet. -/
structure Reader where
  text : List Char
  position : Nat
  pending : Option Diagnostic
  deriving DecidableEq

namespace Reader

def ofText (text : List Char) : Reader := ⟨text, 0, none⟩

/-- The text from the reader's offset on. -/
def rest (r : Reader) : List Char := Text.dropBytes r.position r.text

/-- The reader behind a token that was read at `offset`. -/
def behind (r : Reader) (offset : Nat) (s : Lexer.Scanned) : Lexeme × Reader :=
  (s.lexeme, { r with position := offset + s.lexeme.fullWidth, pending := r.pending.or s.diagnostic })

/-- The next token. -/
def scan (r : Reader) : Lexeme × Reader := r.behind r.position (Lexer.scan r.position r.rest)

/-- The token at `offset`, read as a regular expression literal. -/
def rescanSlash (r : Reader) (offset : Nat) : Lexeme × Reader :=
  r.behind offset (Lexer.rescanSlash offset (Text.dropBytes offset r.text))

/-- The reader at another offset, the end of the text at most. -/
def setPosition (r : Reader) (offset : Nat) : Reader := { r with position := min offset (Text.width r.text) }

/-- The first error since the last call. -/
def takeDiagnostic (r : Reader) : Option Diagnostic × Reader := (r.pending, { r with pending := none })

end Reader

end Downlevel

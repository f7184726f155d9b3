import Downlevel.Token.Kind
import Downlevel.Token.Value
import Downlevel.Trivia.Basic
/-!
# Token.Basic — tokens and what they hold

A `Lexeme` is the content of a token: a realized one has a text, a value and trivia on both sides, and an empty one
stands where the grammar lets a token be left out.  A `Token` is a lexeme with the number of the object that holds it,
so that one object met at two places is told from two objects of equal content.
-/
namespace Downlevel

/-- The number of an object. -/
abbrev ObjectId := Nat

/-- The content of a token. -/
inductive Lexeme where
  | empty (kind : TokenKind)
  | realized (kind : TokenKind) (leading : TriviaList) (text : List Char) (value : TokenValue) (trailing : TriviaList)
  deriving DecidableEq, Repr

namespace Lexeme

def kind : Lexeme → TokenKind
  | empty kind => kind
  | realized kind _ _ _ _ => kind

def text : Lexeme → List Char
  | empty _ => []
  | realized _ _ text _ _ => text

def value : Lexeme → TokenValue
  | empty _ => .none
  | realized _ _ _ value _ => value

def leading : Lexeme → TriviaList
  | empty _ => .empty
  | realized _ leading _ _ _ => leading

/-- The trivia behind, up to the end of the line. -/
def trailing : Lexeme → TriviaList
  | empty _ => .empty
  | realized _ _ _ _ trailing => trailing

/-- The token was left out. -/
def isMissing : Lexeme → Bool
  | empty _ => true
  | realized _ _ _ _ _ => false

/-- The value as text, or the characters where there is no value. -/
def valueText (l : Lexeme) : List Char :=
  match l.value with
  | .none => l.text
  | v => v.text

/-- The bytes of the characters. -/
def width (l : Lexeme) : Nat := Text.width l.text

/-- The bytes of the characters and the trivia. -/
def fullWidth (l : Lexeme) : Nat := l.leading.fullWidth + l.width + l.trailing.fullWidth

/-- The characters with the trivia around them. -/
def fullText (l : Lexeme) : List Char := l.leading.fullText ++ l.text ++ l.trailing.fullText

/-- **The full width is the number of bytes of the full text.** -/
theorem fullWidth_eq (l : Lexeme) : l.fullWidth = Text.width l.fullText := by
  simp [fullWidth, fullText, width, TriviaList.fullWidth_eq_width_fullText, Nat.add_assoc]

/-- The same token with other trivia in front; an empty token becomes a realized one. -/
def withLeading (l : Lexeme) (leading : TriviaList) : Lexeme := realized l.kind leading l.text l.value l.trailing

/-- The same token with other trivia behind; an empty token becomes a realized one. -/
def withTrailing (l : Lexeme) (trailing : TriviaList) : Lexeme := realized l.kind l.leading l.text l.value trailing

/-- A reserved word as a plain name. -/
def asName (l : Lexeme) : Lexeme := realized .identifier l.leading l.text (.identifier l.text) l.trailing

/-- Equality of content, values compared as values. -/
def equals : Lexeme → Lexeme → Bool
  | empty k, empty k' => k == k'
  | realized k l t v r, realized k' l' t' v' r' => k == k' && l == l' && t == t' && v.equals v' && r == r'
  | _, _ => false

/-- The kind and the quoted full text. -/
def shown (l : Lexeme) : List Char :=
  l.kind.name.toList ++ (if l.isMissing then "(empty)".toList else ['('] ++ Quoted.text l.fullText ++ [')'])

/-! ## Making content -/

/-- A token of a kind with a fixed spelling; other kinds get no characters. -/
def ofKind (kind : TokenKind) : Lexeme :=
  let value :=
    match kind with
    | .keyword .trueKw => .boolean true
    | .keyword .falseKw => .boolean false
    | _ => .none
  realized kind .empty (kind.text?.getD []) value .empty

def identifier (name : List Char) : Lexeme :=
  realized .identifier .empty name (.identifier (Escapes.decode name)) .empty

/-- A string literal, given with its quotes. -/
def stringLiteral (text : List Char) : Lexeme :=
  realized .string .empty text (.string (Escapes.literalValue text)) .empty

def numericLiteral (text : List Char) : Lexeme :=
  realized .number .empty text (.number (NumericLiteral.value text)) .empty

end Lexeme

/-- A token object. -/
structure Token where
  id : ObjectId
  lexeme : Lexeme
  deriving DecidableEq, Repr

namespace Token

def kind (t : Token) : TokenKind := t.lexeme.kind

def text (t : Token) : List Char := t.lexeme.text

def value (t : Token) : TokenValue := t.lexeme.value

/-- The value as text, or the characters where there is no value. -/
def valueText (t : Token) : List Char := t.lexeme.valueText

def leading (t : Token) : TriviaList := t.lexeme.leading

def trailing (t : Token) : TriviaList := t.lexeme.trailing

/-- The token was left out. -/
def isMissing (t : Token) : Bool := t.lexeme.isMissing

/-- The bytes of the characters. -/
def width (t : Token) : Nat := t.lexeme.width

/-- The bytes of the characters and the trivia. -/
def fullWidth (t : Token) : Nat := t.lexeme.fullWidth

/-- The characters with the trivia around them. -/
def fullText (t : Token) : List Char := t.lexeme.fullText

/-- The kind and the quoted full text. -/
def shown (t : Token) : List Char := t.lexeme.shown

/-- The two are one object. -/
def isSame (s t : Token) : Bool := s.id == t.id

/-- The two are one object or have equal content. -/
def contentEquals (s t : Token) : Bool := s.isSame t || s.lexeme.equals t.lexeme

end Token

end Downlevel

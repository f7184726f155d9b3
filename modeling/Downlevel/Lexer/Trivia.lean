import Downlevel.Text.CharClass
import Downlevel.Trivia.Basic
/-!
# Lexer.Trivia — cutting blanks and comments off a text

`cut?` takes one piece of trivia off the front, `run` as many as there are.  Trivia behind a token ends with the line,
trivia in front of one does not.  A multi-line comment that is not closed reaches to the end of the text.
-/
namespace Downlevel

/-- What is wrong with the characters of a text. -/
inductive LexicalError where
  | unexpectedCharacter (c : Char)
  | invalidEscape
  | unterminatedString
  | unterminatedRegularExpression
  | unterminatedComment
  deriving DecidableEq, Repr

def LexicalError.message : LexicalError → List Char
  | unexpectedCharacter c => "unexpected character ".toList ++ Quoted.char c
  | invalidEscape => "invalid escape in identifier".toList
  | unterminatedString => "unterminated string literal".toList
  | unterminatedRegularExpression => "unterminated regular expression literal".toList
  | unterminatedComment => "unterminated multi-line comment".toList

/-- A lexical error and the offset of the token or comment that has it. -/
structure Diagnostic where
  offset : Nat
  error : LexicalError
  deriving DecidableEq, Repr

namespace Lexer

open CharClass

/-- A piece of trivia, what follows it, and whether it is a comment that is not closed. -/
structure TriviaCut where
  item : Trivia
  rest : List Char
  unterminated : Bool
  deriving DecidableEq

/-- The end of line at the front of a text that starts with a line break. -/
def cutLineBreak (c : Char) (cs : List Char) : TriviaCut :=
  match cs with
  | '\n' :: rest => if c = '\r' then ⟨⟨.newLine, [c, '\n']⟩, rest, false⟩ else ⟨⟨.newLine, [c]⟩, cs, false⟩
  | _ => ⟨⟨.newLine, [c]⟩, cs, false⟩

/-- The comment at the front of a text that starts with `/*`, given what follows these two. -/
def cutMultiLine (cs : List Char) : TriviaCut :=
  match Text.splitAtMark? ['*', '/'] cs with
  | some (body, rest) => ⟨⟨.multiLineComment, ['/', '*'] ++ body ++ ['*', '/']⟩, rest, false⟩
  | none => ⟨⟨.multiLineComment, ['/', '*'] ++ cs⟩, [], true⟩

/-- The piece of trivia at the front of a text, if there is one. -/
def cut? (cs : List Char) : Option TriviaCut :=
  match cs with
  | [] => none
  | c :: rest =>
    if isBlank c then some ⟨⟨.whitespace, cs.takeWhile isBlank⟩, cs.dropWhile isBlank, false⟩
    else if isLineBreak c then some (cutLineBreak c rest)
    else if c = '/' then
      match rest with
      | '/' :: _ =>
        some
          ⟨⟨.singleLineComment, cs.takeWhile (fun d => !isLineBreak d)⟩, cs.dropWhile (fun d => !isLineBreak d), false⟩
      | '*' :: body => some (cutMultiLine body)
      | _ => none
    else none

/-- Trivia in a row, what follows it, and the error of a comment that is not closed. -/
structure TriviaRun where
  items : List Trivia
  rest : List Char
  diagnostic : Option Diagnostic
  deriving DecidableEq

/-- At most `limit` pieces of trivia off the front of a text that stands at `offset`. -/
def runUpTo (trailing : Bool) : Nat → Nat → List Char → TriviaRun
  | 0, _, cs => ⟨[], cs, none⟩
  | limit + 1, offset, cs =>
    match cut? cs with
    | none => ⟨[], cs, none⟩
    | some cut =>
      let diagnostic := if cut.unterminated then some ⟨offset, .unterminatedComment⟩ else none
      -- The end of line behind a token is the last trivia of that token.
      if trailing && cut.item.isNewLine then ⟨[cut.item], cut.rest, diagnostic⟩
      else
        let more := runUpTo trailing limit (offset + cut.item.fullWidth) cut.rest
        ⟨cut.item :: more.items, more.rest, diagnostic.or more.diagnostic⟩

/-- The trivia at the front of a text; behind a token it ends with the line. -/
def run (trailing : Bool) (offset : Nat) (cs : List Char) : TriviaRun := runUpTo trailing cs.length offset cs

end Lexer

end Downlevel

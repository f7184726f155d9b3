import Downlevel.Lexer.Trivia
import Downlevel.Token.Basic
/-!
# Lexer.Lexeme — cutting a token off a text

`scan` takes the trivia in front, the characters of one token and the trivia behind off the front of a text.  A slash is
read as punctuation; `rescanSlash` reads it as the start of a regular expression literal, which only a reader that knows
the grammar can ask for.  `scanAll` cuts a whole text into tokens, the end of the file last.
-/
namespace Downlevel

namespace Lexer

open CharClass

/-! ## The characters of a token -/

/-- The longest name at the front of a text, and what follows it; `\u` may stand anywhere in a name. -/
def splitName : List Char → List Char × List Char
  | [] => ([], [])
  | c :: cs =>
    if isIdentifierPart c then
      let (name, rest) := splitName cs
      (c :: name, rest)
    else if c = '\\' then
      match cs with
      | 'u' :: after =>
        let (name, rest) := splitName after
        (c :: 'u' :: name, rest)
      | _ => ([], c :: cs)
    else ([], c :: cs)

/-- The exponent at the front of a text, and what follows it; an exponent without digits is none. -/
def splitExponent (cs : List Char) : List Char × List Char :=
  match cs with
  | [] => ([], [])
  | c :: after =>
    if c = 'e' ∨ c = 'E' then
      let (sign, digits) :=
        match after with
        | '+' :: rest => (['+'], rest)
        | '-' :: rest => (['-'], rest)
        | rest => ([], rest)
      if digits.head?.any isDigit then
        (c :: sign ++ digits.takeWhile isDigit, digits.dropWhile isDigit)
      else ([], cs)
    else ([], cs)

/-- The point and its digits at the front of a text, and what follows them. -/
def splitFraction (cs : List Char) : List Char × List Char :=
  match cs with
  | '.' :: after => ('.' :: after.takeWhile isDigit, after.dropWhile isDigit)
  | _ => ([], cs)

/-- The decimal literal at the front of a text, and what follows it. -/
def splitDecimal (cs : List Char) : List Char × List Char :=
  let (fraction, rest) := splitFraction (cs.dropWhile isDigit)
  let (exponent, rest) := splitExponent rest
  (cs.takeWhile isDigit ++ fraction ++ exponent, rest)

/-- The numeric literal at the front of a text, and what follows it. -/
def splitNumber (cs : List Char) : List Char × List Char :=
  match cs with
  | '0' :: c :: rest =>
    if c = 'x' ∨ c = 'X' then ('0' :: c :: rest.takeWhile isHexDigit, rest.dropWhile isHexDigit)
    else splitDecimal cs
  | _ => splitDecimal cs

/-- The characters of a literal, what follows it, and whether it is closed. -/
structure LiteralCut where
  text : List Char
  rest : List Char
  closed : Bool
  deriving DecidableEq

namespace LiteralCut

/-- The cut with more characters in front of the literal. -/
def after (lead : List Char) (cut : LiteralCut) : LiteralCut := { cut with text := lead ++ cut.text }

end LiteralCut

/-- A string literal from behind its opening quote on. -/
def cutString (quote : Char) : List Char → LiteralCut
  | [] => ⟨[], [], false⟩
  | c :: cs =>
    if c = quote then ⟨[c], cs, true⟩
    else if c = '\\' then
      match cs with
      | [] => ⟨[c], [], false⟩
      -- Both characters of an end of line are escaped, so the literal goes on behind the second.
      | '\r' :: '\n' :: rest => (cutString quote rest).after [c, '\r', '\n']
      | d :: rest => (cutString quote rest).after [c, d]
    else if isLineBreak c then ⟨[], c :: cs, false⟩
    else (cutString quote cs).after [c]

/-- The body of a regular expression literal up to its closing slash; a slash in brackets does not close it. -/
def cutPattern : Bool → List Char → LiteralCut
  | _, [] => ⟨[], [], false⟩
  | inClass, c :: cs =>
    if isLineBreak c then ⟨[], c :: cs, false⟩
    else if c = '\\' then
      match cs with
      | [] => ⟨[c], [], false⟩
      | d :: rest => (cutPattern inClass rest).after [c, d]
    else if c = '[' then (cutPattern true cs).after [c]
    else if c = ']' then (cutPattern false cs).after [c]
    else if c = '/' ∧ inClass = false then ⟨[c], cs, true⟩
    else (cutPattern inClass cs).after [c]

/-- A regular expression literal with its flags, its first character taken for the opening slash. -/
def cutRegularExpression (cs : List Char) : LiteralCut :=
  let body := cutPattern false (cs.drop 1)
  if body.closed then
    ⟨cs.take 1 ++ body.text ++ body.rest.takeWhile isIdentifierPart, body.rest.dropWhile isIdentifierPart, true⟩
  else ⟨cs.take 1 ++ body.text, body.rest, false⟩

/-- The longest punctuation mark at the front of a text. -/
def punctuation? (cs : List Char) : Option Punctuation :=
  [4, 3, 2, 1].findSome? (fun n => Punctuation.all.find? (fun p => p.text == cs.take n))

/-- The characters of one token, what the token is and denotes, what follows it, and what is wrong with it. -/
structure TokenCut where
  kind : TokenKind
  text : List Char
  value : TokenValue
  rest : List Char
  error : Option LexicalError
  deriving DecidableEq

/-- A name or reserved word at the front of a text. -/
def cutName (cs : List Char) : TokenCut :=
  let (name, rest) := splitName cs
  if name.isEmpty then ⟨.error, cs.take 1, .none, cs.drop 1, some .invalidEscape⟩
  else
    match Keyword.ofText? name with
    | some .trueKw => ⟨.keyword .trueKw, name, .boolean true, rest, none⟩
    | some .falseKw => ⟨.keyword .falseKw, name, .boolean false, rest, none⟩
    | some k => ⟨.keyword k, name, .none, rest, none⟩
    | none => ⟨.identifier, name, .identifier (Escapes.decode name), rest, none⟩

/-- The token at the front of a text that starts with no trivia. -/
def cutToken (cs : List Char) : TokenCut :=
  match cs with
  | [] => ⟨.endOfFile, [], .none, [], none⟩
  | c :: after =>
    -- A backslash may start a name, as an escape of its first character.
    if isIdentifierStart c || c = '\\' then cutName cs
    else if isDigit c || (c = '.' && after.head?.any isDigit) then
      let (text, rest) := splitNumber cs
      ⟨.number, text, .number (NumericLiteral.value text), rest, none⟩
    else if c = '"' || c = '\'' then
      let cut := cutString c after
      ⟨.string, c :: cut.text, .string (Escapes.literalValue (c :: cut.text)), cut.rest,
        if cut.closed then none else some .unterminatedString⟩
    else
      match punctuation? cs with
      | some p => ⟨.punctuation p, p.text, .none, cs.drop p.text.length, none⟩
      | none => ⟨.error, [c], .none, after, some (.unexpectedCharacter c)⟩

/-! ## Tokens with their trivia -/

/-- A token, what follows it, and the first error in it or its trivia. -/
structure Scanned where
  lexeme : Lexeme
  rest : List Char
  diagnostic : Option Diagnostic
  deriving DecidableEq

/-- **The next token of a text that stands at `offset`.** -/
def scan (offset : Nat) (cs : List Char) : Scanned :=
  let lead := run false offset cs
  let start := offset + (TriviaList.ofList lead.items).fullWidth
  let token := cutToken lead.rest
  let trail :=
    if token.kind = .endOfFile then ⟨[], token.rest, none⟩ else run true (start + Text.width token.text) token.rest
  { lexeme := .realized token.kind (.ofList lead.items) token.text token.value (.ofList trail.items)
    rest := trail.rest
    diagnostic := lead.diagnostic.or ((token.error.map (⟨start, ·⟩)).or trail.diagnostic) }

/-- The next token of a text that stands at `offset`, its first character taken for the slash of a literal. -/
def rescanSlash (offset : Nat) (cs : List Char) : Scanned :=
  let lead := run false offset cs
  let start := offset + (TriviaList.ofList lead.items).fullWidth
  let literal := cutRegularExpression lead.rest
  let trail := run true (start + Text.width literal.text) literal.rest
  { lexeme := .realized .regularExpression (.ofList lead.items) literal.text (.regex literal.text) (.ofList trail.items)
    rest := trail.rest
    diagnostic := lead.diagnostic.or
      ((if literal.closed then none else some ⟨start, .unterminatedRegularExpression⟩).or trail.diagnostic) }

/-- At most `limit` tokens of a text that stands at `offset`, each with the first error in it. -/
def scanUpTo : Nat → Nat → List Char → List (Lexeme × Option Diagnostic)
  | 0, _, _ => []
  | limit + 1, offset, cs =>
    let next := scan offset cs
    (next.lexeme, next.diagnostic)
      :: (if next.lexeme.kind = .endOfFile then [] else scanUpTo limit (offset + next.lexeme.fullWidth) next.rest)

/-- **All tokens of a text**, the end of the file last. -/
def scanAll (text : List Char) : List (Lexeme × Option Diagnostic) := scanUpTo (text.length + 1) 0 text

end Lexer

end Downlevel

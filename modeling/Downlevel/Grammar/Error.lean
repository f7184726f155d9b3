import Downlevel.Lexer.Trivia
import Downlevel.Text.Lines
import Downlevel.Token.Kind
/-!
# Grammar.Error — why a text is not a program

Reading stops at the first fault.  A `ParseError` is the fault with the offset of the token or comment that has it; the
wording of all faults is here.
-/
namespace Downlevel

/-- What the grammar asks for where something else stands. -/
inductive Expectation where
  | token (kind : TokenKind)
  | identifier
  | propertyName
  | type
  | expression
  | element
  | declaration
  | handler
  | switchClause
  deriving DecidableEq, Repr

/-- The wording of what is asked for. -/
def Expectation.message : Expectation → List Char
  | token kind => kind.shown
  | identifier => "identifier".toList
  | propertyName => "property name".toList
  | type => "type".toList
  | expression => "expression".toList
  | element => "element".toList
  | declaration => "declaration".toList
  | handler => "'catch' or 'finally'".toList
  | switchClause => "'case' or 'default'".toList

/-- What is wrong with a text. -/
inductive ParseFault where
  | lexical (error : LexicalError)
  /-- Something else is asked for than the token found, none being the end of the file. -/
  | expected (what : Expectation) (found : Option (List Char))
  | tooDeep
  | declaredInterface
  | severalForInVariables
  | lineBreakAfterThrow
  deriving DecidableEq, Repr

def ParseFault.message : ParseFault → List Char
  | lexical error => error.message
  | expected what found =>
    let shown := match found with
      | some text => '\'' :: text ++ ['\'']
      | none => "end of file".toList
    "expected ".toList ++ what.message ++ ", found ".toList ++ shown
  | tooDeep => "nesting is too deep".toList
  | declaredInterface => "'declare' is not allowed on an interface".toList
  | severalForInVariables => "only one variable may be declared in a for-in statement".toList
  | lineBreakAfterThrow => "line break not permitted after 'throw'".toList

/-- A fault and where it was met. -/
structure ParseError where
  fault : ParseFault
  offset : Nat
  deriving DecidableEq, Repr

namespace ParseError

/-- The wording without the place. -/
def message (e : ParseError) : List Char := e.fault.message

/-- The wording with the place. -/
def shown (e : ParseError) : List Char := e.message ++ " (at offset ".toList ++ Text.ofNat e.offset ++ [')']

/-- The line and character in the text that was read. -/
def position (e : ParseError) (text : List Char) : Position :=
  (LineMap.ofText text).positionOf (min e.offset (Text.width text))

end ParseError

end Downlevel

import Downlevel.Number.Literal
import Downlevel.Number.Text
import Downlevel.Text.Escapes
/-!
# Token.Value — what a token denotes

A literal denotes a number, a text, a truth value or the body of a regular expression, and a name denotes the text it
spells with its escapes resolved.  Values compare as a program compares them: no number equals `NaN`.
-/
namespace Downlevel

/-- What a token denotes. -/
inductive TokenValue where
  | none
  | number (value : Binary64)
  | string (value : List Char)
  | boolean (value : Bool)
  | regex (source : List Char)
  | identifier (name : List Char)
  deriving DecidableEq, Repr

namespace TokenValue

/-- The value as text, by which members of the same name are told. -/
def text : TokenValue → List Char
  | none => []
  | number x => x.text
  | boolean b => if b then "true".toList else "false".toList
  | string s => s
  | regex s => s
  | identifier s => s

def number? : TokenValue → Option Binary64
  | number x => some x
  | _ => .none

/-- Equality of values, numbers compared as numbers. -/
def equals : TokenValue → TokenValue → Bool
  | none, none => true
  | number x, number y => x.equals y
  | string s, string t => s == t
  | boolean b, boolean c => b == c
  | regex s, regex t => s == t
  | identifier s, identifier t => s == t
  | _, _ => false

end TokenValue

end Downlevel

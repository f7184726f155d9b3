import Downlevel.Json.Basic
import Downlevel.Text.Basic
import Downlevel.Text.Escapes
/-!
# Json.Reader — reading JSON

A text is one value between blanks.  Values nest no deeper than `maxDepth`, a text in quotes holds no control character
and no half of a surrogate pair, and a number is in the range of double precision.  Each reader takes the characters
left and gives back what it read with the rest.
-/
namespace Downlevel.Json

open CharClass

/-- Lists and records nest no deeper than this. -/
def maxDepth : Nat := 127

/-- The blanks between values. -/
def isBlank (c : Char) : Bool := c == ' ' || c == '\t' || c == '\n' || c == '\r'

/-- The characters behind the blanks at the front. -/
def skipBlanks (cs : List Char) : List Char := cs.dropWhile isBlank

/-! ## Texts in quotes -/

/-- The character that a letter stands for behind a backslash. -/
def escaped? : Char → Option Char
  | '"' => some '"'
  | '\\' => some '\\'
  | '/' => some '/'
  | 'b' => some '\x08'
  | 'f' => some '\x0c'
  | 'n' => some '\n'
  | 'r' => some '\r'
  | 't' => some '\t'
  | _ => none

/-- The code unit that four hexadecimal digits spell. -/
def unit? (a b c d : Char) : Option Nat := Escapes.hexNumber? 4 0 [a, b, c, d]

/-- The first of two code units that make one character. -/
def isHighSurrogate (unit : Nat) : Bool := 0xD800 ≤ unit && unit < 0xDC00

/-- The second of two code units that make one character. -/
def isLowSurrogate (unit : Nat) : Bool := 0xDC00 ≤ unit && unit < 0xE000

/-- The character that two code units make. -/
def pair (high low : Nat) : Char := Char.ofNat (0x10000 + (high - 0xD800) * 0x400 + (low - 0xDC00))

/-- What stands behind an opening quote, up to the closing one. -/
def quoted : List Char → Option (List Char × List Char)
  | [] => none
  | '"' :: cs => some ([], cs)
  | '\\' :: 'u' :: a :: b :: c :: d :: cs =>
    match unit? a b c d with
    | none => none
    | some high =>
      if isLowSurrogate high then none
      else if isHighSurrogate high then
        match cs with
        | '\\' :: 'u' :: e :: f :: g :: h :: cs =>
          match unit? e f g h with
          | none => none
          | some low => if isLowSurrogate low then (quoted cs).map (fun (t, cs) => (pair high low :: t, cs)) else none
        | _ => none
      else (quoted cs).map (fun (t, cs) => (Char.ofNat high :: t, cs))
  | '\\' :: e :: cs =>
    match escaped? e with
    | none => none
    | some c => (quoted cs).map (fun (t, cs) => (c :: t, cs))
  | c :: cs => if c = '\\' || c.toNat < 0x20 then none else (quoted cs).map (fun (t, cs) => (c :: t, cs))

/-! ## Numbers -/

/-- The digits at the front, at least one. -/
def digits (cs : List Char) : Option (List Char × List Char) :=
  let (ds, cs) := cs.span isDigit
  if ds.isEmpty then none else some (ds, cs)

/-- The digits before the point: a zero stands alone. -/
def whole (cs : List Char) : Option (List Char × List Char) := do
  let (ds, cs) ← digits cs
  if ds.head? = some '0' && ds.length ≠ 1 then none else some (ds, cs)

/-- The point and the digits behind it. -/
def fraction : List Char → Option (List Char × List Char)
  | '.' :: cs => digits cs
  | cs => some ([], cs)

def exponentDigits (negative : Bool) (cs : List Char) : Option (Option Int × List Char) := do
  let (ds, cs) ← digits cs
  return (some (Binary64.signed negative (NumericLiteral.digitsValue ds)), cs)

/-- What stands behind the `e`. -/
def exponentTail : List Char → Option (Option Int × List Char)
  | '-' :: cs => exponentDigits true cs
  | '+' :: cs => exponentDigits false cs
  | cs => exponentDigits false cs

/-- The exponent with its mark. -/
def exponent : List Char → Option (Option Int × List Char)
  | 'e' :: cs => exponentTail cs
  | 'E' :: cs => exponentTail cs
  | cs => some (none, cs)

/-- A number without its sign. -/
def magnitude (negative : Bool) (cs : List Char) : Option (JsonNumber × List Char) := do
  let (whole, cs) ← whole cs
  let (fraction, cs) ← fraction cs
  let (exponent, cs) ← exponent cs
  let number : JsonNumber := ⟨negative, whole, fraction, exponent⟩
  if number.isFinite then some (number, cs) else none

def numeral : List Char → Option (JsonNumber × List Char)
  | '-' :: cs => magnitude true cs
  | cs => magnitude false cs

/-! ## Values -/

def word (text : String) (value : Json) (cs : List Char) : Option (Json × List Char) :=
  (Text.strip? text.toList cs).map (fun cs => (value, cs))

/-- A value that holds no other. -/
def scalar : List Char → Option (Json × List Char)
  | '"' :: cs => (quoted cs).map (fun (t, cs) => (text t, cs))
  | 'n' :: cs => word "ull" null cs
  | 't' :: cs => word "rue" (boolean true) cs
  | 'f' :: cs => word "alse" (boolean false) cs
  | cs => (numeral cs).map (fun (n, cs) => (number n, cs))

/-- Items up to the closing character with a comma between two, so many at most. -/
def items {α : Type} (item : List Char → Option (α × List Char)) (close : Char) :
    Nat → List Char → Option (List α × List Char)
  | 0, _ => none
  | count + 1, cs => do
    let (a, cs) ← item cs
    match skipBlanks cs with
    | [] => none
    | c :: cs =>
      if c = close then some ([a], cs)
      else if c = ',' then (items item close count cs).map (fun (as, cs) => (a :: as, cs))
      else none

/-- All items up to the closing character; each takes a character at least. -/
def series {α : Type} (item : List Char → Option (α × List Char)) (close : Char) (cs : List Char) :
    Option (List α × List Char) :=
  let cs := skipBlanks cs
  if cs.head? = some close then some ([], cs.tail) else items item close cs.length cs

/-- A name, a colon and a value. -/
def fieldBy (value : List Char → Option (Json × List Char)) (cs : List Char) :
    Option ((List Char × Json) × List Char) :=
  match skipBlanks cs with
  | '"' :: cs => do
    let (name, cs) ← quoted cs
    match skipBlanks cs with
    | ':' :: cs => (value cs).map (fun (v, cs) => ((name, v), cs))
    | _ => none
  | _ => none

/-- A value in which lists and records nest so deep at most. -/
def valueWithin : Nat → List Char → Option (Json × List Char)
  | 0, cs => scalar (skipBlanks cs)
  | depth + 1, cs =>
    match skipBlanks cs with
    | '[' :: cs => (series (valueWithin depth) ']' cs).map (fun (l, cs) => (list l, cs))
    | '\x7b' :: cs => (series (fieldBy (valueWithin depth)) '\x7d' cs).map (fun (l, cs) => (record l, cs))
    | cs => scalar cs

/-- **The value that a text spells.** -/
def parse? (cs : List Char) : Option Json :=
  match valueWithin maxDepth cs with
  | some (value, cs) => if (skipBlanks cs).isEmpty then some value else none
  | none => none

end Downlevel.Json

import Downlevel.Number.Binary64
import Downlevel.Text.CharClass
/-!
# Number.Literal — the number that a numeric literal denotes

A literal that starts with `0x` is hexadecimal, one of octal digits only that starts with `0` is octal, and any other is
decimal with an optional point and exponent.  A text that is none of these denotes no number (`Binary64.nan`).
-/
namespace Downlevel.NumericLiteral

open CharClass

/-- The value of the digits of a text in base ten. -/
def digitsValue (digits : List Char) : Nat :=
  digits.foldl (fun value c => value * 10 + (c.toNat - '0'.toNat)) 0

/-- A digit of a base up to sixteen. -/
def digit? (base : Nat) (c : Char) : Option Nat :=
  if isHexDigit c && hexValue c < base then some (hexValue c) else none

/-- Digits of a base from the most significant on, rounded after each; other characters are skipped. -/
def ofDigits (base : Nat) (digits : List Char) : Binary64 :=
  digits.foldl
    (fun value c =>
      match digit? base c with
      | some d => (value.scaleBy base).add (Binary64.ofNat d)
      | none => value)
    Binary64.zero

/-- A sign at the front of a text: whether it is negative, and what follows it. -/
def splitSign : List Char → Bool × List Char
  | '-' :: cs => (true, cs)
  | '+' :: cs => (false, cs)
  | cs => (false, cs)

/-- An optional exponent that makes up the whole text. -/
def exponent? : List Char → Option Int
  | [] => some 0
  | c :: cs =>
    if c = 'e' ∨ c = 'E' then
      let (negative, digits) := splitSign cs
      if digits ≠ [] ∧ digits.all isDigit then
        some (Binary64.signed negative (digitsValue digits))
      else none
    else none

/-- ASCII letters in lower case. -/
def lower (cs : List Char) : List Char := cs.map Char.toLower

/-- A decimal number without its sign: digits, an optional point with digits, an optional exponent. -/
def unsignedDecimal (negative : Bool) (cs : List Char) : Binary64 :=
  let whole := cs.takeWhile isDigit
  let rest := cs.dropWhile isDigit
  let (fraction, rest) :=
    match rest with
    | '.' :: after => (after.takeWhile isDigit, after.dropWhile isDigit)
    | rest => ([], rest)
  match exponent? rest with
  | some exponent =>
    if whole = [] ∧ fraction = [] then .nan
    else Binary64.ofDecimal negative (digitsValue (whole ++ fraction)) (exponent - fraction.length)
  | none => .nan

/-- A decimal number with an optional sign, or a name of infinity in any case. -/
def decimal (text : List Char) : Binary64 :=
  let (negative, cs) := splitSign text
  if lower cs = "inf".toList ∨ lower cs = "infinity".toList then .infinity negative
  else unsignedDecimal negative cs

def isOctalDigit (c : Char) : Bool := '0' ≤ c && c ≤ '7'

/-- **The number that a literal denotes.** -/
def value (text : List Char) : Binary64 :=
  match text with
  | '0' :: c :: rest =>
    if (c = 'x' ∨ c = 'X') ∧ rest ≠ [] then ofDigits 16 rest
    else if (c :: rest).all isOctalDigit then ofDigits 8 (c :: rest)
    else decimal text
  | _ => decimal text

end Downlevel.NumericLiteral

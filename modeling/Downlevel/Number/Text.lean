import Downlevel.Number.Binary64
/-!
# Number.Text — numbers written as a program prints them

A whole number below `10 ^ 21` is written with all its digits, any other number with the fewest digits that read back;
no exponent is ever written.  All reals strictly nearer to a number than to its neighbours round to it, and so do the
two ends of that interval when the mantissa is even.  `shortest` walks the decimal grids from coarse to fine and takes
the first that has a point in the interval; of the two points around the number it takes the nearer.
-/
namespace Downlevel

/-- Decimal digits with the power of ten of the last one: `digits · 10 ^ exponent`. -/
structure Decimal where
  digits : Nat
  exponent : Int
  deriving DecidableEq, Repr

namespace Decimal

/-- The reals that round to one number: `low`, `value` and `high` over the common denominator `scale`. -/
structure Interval where
  low : Nat
  value : Nat
  high : Nat
  scale : Nat
  closed : Bool

/-- The interval of `mantissa · 2 ^ exponent`; below a power of two the next number is half as far away. -/
def intervalOf (mantissa : Nat) (exponent : Int) : Interval :=
  let below := if mantissa = Nat.pow 2 52 ∧ Binary64.minExponent < exponent then 1 else 2
  let num := Nat.pow 2 exponent.toNat
  let den := 4 * Nat.pow 2 (-exponent).toNat
  ⟨(4 * mantissa - below) * num, 4 * mantissa * num, (4 * mantissa + 2) * num, den, mantissa % 2 = 0⟩

/-- The real `point / scale` rounds to the number. -/
def Interval.holds (i : Interval) (point : Nat) : Bool :=
  if i.closed then i.low ≤ point && point ≤ i.high else i.low < point && point < i.high

/-- The point of the grid of `10 ^ exponent` in the interval that is nearest to the value, if there is one. -/
def Interval.onGrid? (i : Interval) (exponent : Int) : Option Decimal :=
  let step := Nat.pow 10 exponent.toNat
  let shrink := Nat.pow 10 (-exponent).toNat
  let j : Interval := ⟨i.low * shrink, i.value * shrink, i.high * shrink, i.scale, i.closed⟩
  let unit := step * j.scale
  let floor := j.value / unit
  let down := floor * unit
  let up := (floor + 1) * unit
  match j.holds down && floor != 0, j.holds up with
  | true, true => if up - j.value ≤ j.value - down then some ⟨floor + 1, exponent⟩ else some ⟨floor, exponent⟩
  | true, false => some ⟨floor, exponent⟩
  | false, true => some ⟨floor + 1, exponent⟩
  | false, false => none

/-- The first grid with a point in the interval, from `exponent` down. -/
def Interval.search (i : Interval) : Nat → Int → Decimal
  | 0, exponent => ⟨0, exponent⟩
  | tries + 1, exponent =>
    match i.onGrid? exponent with
    | some d => d
    | none => i.search tries (exponent - 1)

/-- The number of decimal digits of a natural number. -/
def digitCount (n : Nat) : Nat := (Nat.toDigits 10 n).length

/-- No number has more digits in front of the point, and none needs more behind the first one that counts. -/
def maxDigits : Nat := 20

/-- **The decimal of fewest digits that rounds to `mantissa · 2 ^ exponent`**, for a mantissa above zero. -/
def shortest (mantissa : Nat) (exponent : Int) : Decimal :=
  let i := intervalOf mantissa exponent
  let top : Int :=
    if i.scale ≤ i.value then (digitCount (i.value / i.scale) : Int)
    else 1 - (digitCount (i.scale / i.value) : Int)
  i.search maxDigits (top + 1)

end Decimal

namespace Binary64

/-- Below this magnitude whole numbers are written exactly. -/
def wholeLimit : Nat := Nat.pow 10 21

/-- The magnitude `mantissa · 2 ^ exponent` if it is a whole number. -/
def whole? (mantissa : Nat) (exponent : Int) : Option Nat :=
  if 0 ≤ exponent then some (mantissa * Nat.pow 2 exponent.toNat)
  else
    let den := Nat.pow 2 (-exponent).toNat
    if mantissa % den = 0 then some (mantissa / den) else none

/-- Decimal digits with the point put in its place. -/
def positional (d : Decimal) : List Char :=
  let digits := Nat.toDigits 10 d.digits
  if 0 ≤ d.exponent then digits ++ List.replicate d.exponent.toNat '0'
  else
    let places := (-d.exponent).toNat
    if places < digits.length then
      digits.take (digits.length - places) ++ ['.'] ++ digits.drop (digits.length - places)
    else ['0', '.'] ++ List.replicate (places - digits.length) '0' ++ digits

/-- A magnitude written without its sign. -/
def magnitudeText (mantissa : Nat) (exponent : Int) : List Char :=
  match whole? mantissa exponent with
  | some n =>
    if n < wholeLimit then Nat.toDigits 10 n else positional (Decimal.shortest mantissa exponent)
  | none => positional (Decimal.shortest mantissa exponent)

/-- **The text of a number.** -/
def text : Binary64 → List Char
  | nan => "NaN".toList
  | infinity negative => if negative then "-Infinity".toList else "Infinity".toList
  | finite negative mantissa exponent =>
    (if negative then ['-'] else []) ++ magnitudeText mantissa exponent

end Binary64

end Downlevel

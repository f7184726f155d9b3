/-!
# Number.Binary64 — double-precision numbers in exact arithmetic

A finite number is `± mantissa · 2 ^ exponent` with a mantissa below `2 ^ 53`.  Every operation computes the exact
result as a ratio of natural numbers and rounds it once, to the nearest number and from a tie to the even mantissa
(`ofRatio`).  Nothing here uses the machine's floating-point unit, so results can be reasoned about and evaluated.
Powers are spelled `Nat.pow`, which means the same whatever other powers are in scope.
-/
namespace Downlevel

/-- A double-precision number. -/
inductive Binary64 where
  | nan
  | infinity (negative : Bool)
  | finite (negative : Bool) (mantissa : Nat) (exponent : Int)
  deriving DecidableEq, Repr

namespace Binary64

/-- The exponent of the numbers next to zero. -/
def minExponent : Int := -1074

/-- The exponent of the largest numbers. -/
def maxExponent : Int := 971

def zero : Binary64 := finite false 0 minExponent

/-- `num / den` rounded to a natural number, a tie going to the even neighbour. -/
def roundDiv (num den : Nat) : Nat :=
  let quotient := num / den
  let twice := 2 * (num % den)
  if twice < den then quotient
  else if den < twice then quotient + 1
  else if quotient % 2 = 0 then quotient else quotient + 1

/-- `num / (den · 2 ^ exponent)` as a numerator and a denominator. -/
def scaled (num den : Nat) (exponent : Int) : Nat × Nat :=
  if 0 ≤ exponent then (num, den * Nat.pow 2 exponent.toNat) else (num * Nat.pow 2 (-exponent).toNat, den)

/-- The exponent at which `num / den` has a mantissa of 53 bits, but no lower than the least one. -/
def exponentOf (num den : Nat) : Int :=
  let guess : Int := (Nat.log2 num : Int) - (Nat.log2 den : Int) - 52
  let (n, d) := scaled num den guess
  let exact := if n < Nat.pow 2 52 * d then guess - 1 else guess
  if exact < minExponent then minExponent else exact

/-- **The number nearest to `± num / den`**, of two equally near the one with the even mantissa. -/
def ofRatio (negative : Bool) (num den : Nat) : Binary64 :=
  if num = 0 then finite negative 0 minExponent
  else
    let exponent := exponentOf num den
    let (n, d) := scaled num den exponent
    let mantissa := roundDiv n d
    let (mantissa, exponent) := if mantissa = Nat.pow 2 53 then (Nat.pow 2 52, exponent + 1) else (mantissa, exponent)
    if maxExponent < exponent then infinity negative else finite negative mantissa exponent

/-- The number nearest to a natural number. -/
def ofNat (n : Nat) : Binary64 := ofRatio false n 1

/-- `± mantissa · 2 ^ exponent` for any mantissa, rounded. -/
def ofScaled (negative : Bool) (mantissa : Nat) (exponent : Int) : Binary64 :=
  if 0 ≤ exponent then ofRatio negative (mantissa * Nat.pow 2 exponent.toNat) 1
  else ofRatio negative mantissa (Nat.pow 2 (-exponent).toNat)

/-- Magnitudes beyond this power of ten are infinite, and those below its inverse are zero. -/
def decimalLimit : Nat := 400

/-- `± digits · 10 ^ exponent`, rounded. -/
def ofDecimal (negative : Bool) (digits : Nat) (exponent : Int) : Binary64 :=
  if digits = 0 then finite negative 0 minExponent
  else
    let leading : Int := exponent + (Nat.log2 digits / 4 : Nat)
    if (decimalLimit : Int) < leading then infinity negative
    else if exponent + (Nat.log2 digits + 1 : Nat) < -(decimalLimit : Int) then finite negative 0 minExponent
    else if 0 ≤ exponent then ofRatio negative (digits * Nat.pow 10 exponent.toNat) 1
    else ofRatio negative digits (Nat.pow 10 (-exponent).toNat)

/-- The number with the other sign. -/
def neg : Binary64 → Binary64
  | nan => nan
  | infinity negative => infinity (!negative)
  | finite negative mantissa exponent => finite (!negative) mantissa exponent

/-- A signed magnitude as an integer. -/
def signed (negative : Bool) (magnitude : Nat) : Int := if negative then -(magnitude : Int) else magnitude

/-- The rounded sum. -/
def add : Binary64 → Binary64 → Binary64
  | nan, _ => nan
  | _, nan => nan
  | infinity s, infinity t => if s = t then infinity s else nan
  | infinity s, _ => infinity s
  | _, infinity t => infinity t
  | finite s m e, finite t n f =>
    let low := if e ≤ f then e else f
    let sum := signed s (m * Nat.pow 2 (e - low).toNat) + signed t (n * Nat.pow 2 (f - low).toNat)
    if sum = 0 then finite (s && t) 0 minExponent
    else ofScaled (decide (sum < 0)) sum.natAbs low

/-- The rounded product with a natural number. -/
def scaleBy (k : Nat) : Binary64 → Binary64
  | nan => nan
  | infinity s => if k = 0 then nan else infinity s
  | finite s m e => ofScaled s (m * k) e

/-- The rounded product. -/
def mul : Binary64 → Binary64 → Binary64
  | nan, _ => nan
  | _, nan => nan
  | infinity s, infinity t => infinity (s != t)
  | infinity s, finite t n _ => if n = 0 then nan else infinity (s != t)
  | finite s m _, infinity t => if m = 0 then nan else infinity (s != t)
  | finite s m e, finite t n f => ofScaled (s != t) (m * n) (e + f)

/-- The number is neither infinite nor undefined. -/
def isFinite : Binary64 → Bool
  | finite _ _ _ => true
  | _ => false

/-- The number is below zero. -/
def isNegative : Binary64 → Bool
  | nan => false
  | infinity negative => negative
  | finite negative mantissa _ => negative && mantissa != 0

/-- **Equality of numbers**: no number equals `nan`, and the two zeros are equal. -/
def equals : Binary64 → Binary64 → Bool
  | nan, _ => false
  | _, nan => false
  | infinity s, infinity t => s == t
  | finite s m e, finite t n f => (m == 0 && n == 0) || (s == t && m == n && e == f)
  | _, _ => false

end Binary64

end Downlevel

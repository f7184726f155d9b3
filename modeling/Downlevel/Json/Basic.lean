import Downlevel.Number.Binary64
import Downlevel.Number.Literal
/-!
# Json.Basic — JSON values

A value keeps the fields of a record in the order of the text, repeated names included, so that a reader of settings can
tell a repeated name.  A number is kept as it is spelled; `natural?` and `isFinite` say what it denotes.
-/
namespace Downlevel

/-- A number as it is spelled: `± whole . fraction e exponent`. -/
structure JsonNumber where
  negative : Bool
  /-- The digits before the point. -/
  whole : List Char
  /-- The digits behind the point, none if there is no point. -/
  fraction : List Char
  /-- What stands behind the `e`, if there is one. -/
  exponent : Option Int
  deriving DecidableEq, Repr

/-- A JSON value. -/
inductive Json where
  | null
  | boolean (b : Bool)
  | number (n : JsonNumber)
  | text (t : List Char)
  | list (items : List Json)
  | record (fields : List (List Char × Json))

/-- Counts are below this number. -/
def countLimit : Nat := Nat.pow 2 64

namespace JsonNumber

/-- The count that a number spells: digits only, and below the limit. -/
def natural? (n : JsonNumber) : Option Nat :=
  if n.negative || !n.fraction.isEmpty || n.exponent.isSome then none
  else
    let value := NumericLiteral.digitsValue n.whole
    if value < countLimit then some value else none

/-- Takes digits into a coefficient for as long as it stays below the limit, and gives back the digits left over. -/
def absorb (coefficient : Nat) : List Char → Nat × List Char
  | [] => (coefficient, [])
  | d :: ds =>
    let larger := coefficient * 10 + NumericLiteral.digitsValue [d]
    if larger < countLimit then absorb larger ds else (coefficient, d :: ds)

/-- The magnitude as a coefficient and a power of ten, digits that the coefficient has no room for left out. -/
def scaled (n : JsonNumber) : Nat × Int :=
  let (whole, dropped) := absorb 0 n.whole
  let (coefficient, unread) := absorb whole n.fraction
  (coefficient, dropped.length - (n.fraction.length - unread.length : Nat) + n.exponent.getD 0)

/-- The largest power of ten that is a number of double precision. -/
def maxPower : Int := 308

/-- The double-precision number nearest to the coefficient, times the power of ten, is finite. -/
def isFinite (n : JsonNumber) : Bool :=
  let (coefficient, power) := n.scaled
  if coefficient = 0 || power < 0 then true
  else if maxPower < power then false
  else ((Binary64.ofNat coefficient).mul (Binary64.ofNat (Nat.pow 10 power.toNat))).isFinite

end JsonNumber

namespace Json

/-- The value is a truth value. -/
def boolean? : Json → Option Bool
  | boolean b => some b
  | _ => none

/-- The value is a text. -/
def text? : Json → Option (List Char)
  | text t => some t
  | _ => none

/-- The value is a count. -/
def natural? : Json → Option Nat
  | number n => n.natural?
  | _ => none

end Json

end Downlevel

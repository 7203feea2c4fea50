import HotFrames.Binary64

/-!
# Shortest decimals

The decimal with the fewest digits that reads back as a given magnitude, and of those the one
nearest to it, of two nearest ones the one with the even last digit. For one digit, then two, and
so on, the two multiples of a power of ten next to the exact value are tried; seventeen digits are
always enough.
-/

namespace HotFrames.Binary64

/-- A decimal: a natural number times a power of ten. -/
structure Decimal where
  coefficient : Nat
  exponent : Int
  deriving DecidableEq, Repr

namespace Decimal

/-- The numerator of a decimal as a quotient. -/
def num (d : Decimal) : Nat := d.coefficient * Nat.pow 10 d.exponent.toNat

/-- The denominator of a decimal as a quotient. -/
def den (d : Decimal) : Nat := Nat.pow 10 (-d.exponent).toNat

/-- The rank that a decimal reads back as. -/
def rank (d : Decimal) : Nat := nearestRank d.num d.den

/-- The same decimal without zeros at the end of its coefficient. -/
def reduced (d : Decimal) : Decimal :=
  if h : 0 < d.coefficient ∧ d.coefficient % 10 = 0 then
    reduced ⟨d.coefficient / 10, d.exponent + 1⟩
  else d
termination_by d.coefficient
decreasing_by omega

end Decimal

/-- The exponent of the first digit of a magnitude that is not zero. The smallest one is above
`10 ^ -324`, so that its product with `10 ^ 324` has a digit before the point. -/
def leadingExponent (rank : Nat) : Int :=
  (Nat.toDigits 10 (units rank * Nat.pow 10 324 / unitsPerOne)).length - 325

/-- The multiple of `10 ^ exponent` next to a magnitude that reads back as it, the nearer one if
both do. -/
def onGrid? (rank : Nat) (exponent : Int) : Option Decimal :=
  let num := units rank * Nat.pow 10 (-exponent).toNat
  let den := unitsPerOne * Nat.pow 10 exponent.toNat
  let below : Decimal := ⟨num / den, exponent⟩
  let above : Decimal := ⟨num / den + 1, exponent⟩
  if below.rank = rank then
    some (if above.rank = rank then ⟨roundDiv num den, exponent⟩ else below)
  else if above.rank = rank then some above
  else none

/-- The shortest decimal of a magnitude that is not zero. -/
def shortest (rank : Nat) : Decimal :=
  let first := leadingExponent rank
  let found := (List.range 17).findSome? fun more => onGrid? rank (first - (more : Nat))
  (found.getD ⟨units rank, -1074⟩).reduced

end HotFrames.Binary64

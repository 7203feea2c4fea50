/-!
# Double-precision numbers

The numbers of the IEEE 754 binary64 format. The magnitudes of the finite ones are ranked: rank 0
is zero, and each next rank is the next larger magnitude. Every finite magnitude is a whole number
of units of `2 ^ -1074`, which `units` gives, so that exact arithmetic is arithmetic on natural
numbers. A result that is not a number of the format is the nearest one, and of two nearest ones
the one of even rank.
-/

namespace HotFrames

/-- The number of finite magnitudes, which is the rank of infinity. -/
def finiteRanks : Nat := 0x7FF0000000000000

/-- A number of the binary64 format. The payload of a NaN is not kept. -/
inductive Binary64
  | finite (negative : Bool) (rank : Fin finiteRanks)
  | infinite (negative : Bool)
  | nan
  deriving DecidableEq, Repr

namespace Binary64

/-! ### Rounding -/

/-- The nearest natural number to a quotient, the even one of two nearest. -/
def roundDiv (num den : Nat) : Nat :=
  let q := num / den
  let r := num % den
  if 2 * r < den then q
  else if den < 2 * r then q + 1
  else if q % 2 = 0 then q
  else q + 1

/-- The number of units in one, `2 ^ 1074`. -/
def unitsPerOne : Nat := 1 <<< 1074

/-- The number of ranks after which the distance between magnitudes doubles, `2 ^ 52`. -/
def binade : Nat := 0x10000000000000

/-- The units of the magnitude of a rank. The magnitudes of the first two binades are one unit
apart, and the distance doubles from each later binade to the next. -/
def units (rank : Nat) : Nat :=
  let scale := rank / binade
  if scale = 0 then rank else (rank % binade + binade) <<< (scale - 1)

/-- The rank nearest to a quotient; it may be the rank of infinity or lie beyond. -/
def nearestRank (num den : Nat) : Nat :=
  let shift := Nat.log2 (num * unitsPerOne / den) - 52
  shift * binade + roundDiv (num * unitsPerOne) (den <<< shift)

/-- The number of a sign and a rank. -/
def ofRank (negative : Bool) (rank : Nat) : Binary64 :=
  if h : rank < finiteRanks then finite negative ⟨rank, h⟩ else infinite negative

/-- The number nearest to a quotient. -/
def ofRatio (negative : Bool) (num den : Nat) : Binary64 := ofRank negative (nearestRank num den)

/-- The number nearest to a natural number. -/
def ofNat (n : Nat) : Binary64 := ofRatio false n 1

/-- The number nearest to an integer. -/
def ofInt (i : Int) : Binary64 := ofRatio (i < 0) i.natAbs 1

/-! ### Arithmetic -/

/-- Positive zero. -/
def zero : Binary64 := ofNat 0

/-- Whether the sign is minus; a NaN has none. -/
def isNegative : Binary64 → Bool
  | finite negative _ => negative
  | infinite negative => negative
  | nan => false

/-- Whether the number is a zero of either sign. -/
def isZero : Binary64 → Bool
  | finite _ rank => rank.val = 0
  | _ => false

/-- Whether the number is neither infinite nor NaN. -/
def isFinite : Binary64 → Bool
  | finite .. => true
  | _ => false

/-- The number with the other sign. -/
def neg : Binary64 → Binary64
  | finite negative rank => finite (!negative) rank
  | infinite negative => infinite (!negative)
  | nan => nan

/-- The product. -/
def mul (x y : Binary64) : Binary64 :=
  let sign := x.isNegative != y.isNegative
  match x, y with
  | nan, _ | _, nan => nan
  | finite _ a, finite _ b =>
    ofRatio sign (units a.val * units b.val) (unitsPerOne * unitsPerOne)
  | _, _ => if x.isZero || y.isZero then nan else infinite sign

/-- The quotient. -/
def div (x y : Binary64) : Binary64 :=
  let sign := x.isNegative != y.isNegative
  match x, y with
  | nan, _ | _, nan => nan
  | infinite _, infinite _ => nan
  | infinite _, finite .. => infinite sign
  | finite .., infinite _ => ofRank sign 0
  | finite _ a, finite _ b =>
    if b.val = 0 then (if a.val = 0 then nan else infinite sign)
    else ofRatio sign (units a.val) (units b.val)

instance : Neg Binary64 := ⟨neg⟩

instance : Mul Binary64 := ⟨mul⟩

instance : Div Binary64 := ⟨div⟩

/-! ### Bits -/

/-- The bit of the sign, `2 ^ 63`. -/
def signBit : Nat := 0x8000000000000000

/-- The number with given bits. -/
def ofBits (bits : UInt64) : Binary64 :=
  let negative := signBit ≤ bits.toNat
  let rank := bits.toNat % signBit
  if finiteRanks < rank then nan else ofRank negative rank

/-- The bits of a number; every NaN has the bits of the quiet one. -/
def toBits : Binary64 → UInt64
  | finite negative rank => .ofNat (rank.val + if negative then signBit else 0)
  | infinite negative => .ofNat (finiteRanks + if negative then signBit else 0)
  | nan => 0x7FF8000000000000

end Binary64

end HotFrames

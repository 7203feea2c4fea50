import HotFrames.Json.Scan
import HotFrames.Text.Numeral

/-!
# Reading JSON numbers

A number is read into a significand and a power of ten. The significand takes the digits in order
as long as it stays below `2 ^ 64`. The first digit of the whole part that does not fit, and every
whole digit after it, raises the power of ten instead; places after such a digit may again be taken
if they fit. The first place that does not fit ends the significand.

The value is the double nearest to the significand, multiplied or divided by the double nearest to
the power of ten, so that it may differ in the last bit from the number that the text denotes. A
value beyond the doubles is an error. A number without a point, an exponent or a dropped digit is an
integer.
-/

namespace HotFrames.Json

/-- Whether a byte is an ASCII digit. -/
def isDigit (b : UInt8) : Bool := 0x30 ≤ b && b ≤ 0x39

/-- The digits at the front, as numbers. -/
def leadingDigits (s : List UInt8) : List Nat := (s.takeWhile isDigit).map (·.toNat - 0x30)

/-- The bytes after the digits at the front. -/
def afterDigits (s : List UInt8) : List UInt8 := s.dropWhile isDigit

theorem length_afterDigits_le (s : List UInt8) : (afterDigits s).length ≤ s.length :=
  (List.dropWhile_suffix _).length_le

theorem length_afterDigits_cons {b : UInt8} {s : List UInt8} (h : isDigit b = true) :
    (afterDigits (b :: s)).length < (b :: s).length := by
  rw [afterDigits, List.dropWhile_cons_of_pos h]
  exact Nat.lt_succ_of_le (length_afterDigits_le s)

/-- A number as it was written. -/
inductive Number
  | integer (value : Int)
  | real (value : Binary64)
  deriving DecidableEq, Repr

namespace Number

/-- The double nearest to a number. -/
def toBinary64 : Number → Binary64
  | integer value => .ofInt value
  | real value => value

/-- What a message calls the number. -/
def found : Number → Found
  | integer value => .integer value
  | real value => .real value

end Number

/-! ### Values -/

/-- The bound of significands, `2 ^ 64`. -/
def significandBound : Nat := 0x10000000000000000

/-- Takes digits into a significand as long as it stays below the bound: the significand, and how
many digits are left. -/
def absorb (significand : Nat) : List Nat → Nat × Nat
  | [] => (significand, 0)
  | d :: ds =>
    if significand * 10 + d < significandBound then absorb (significand * 10 + d) ds
    else (significand, ds.length + 1)

/-- The largest power of ten that is used in one step. -/
def maxPower : Nat := 308

/-- The double nearest to a power of ten. -/
def tenTo (n : Nat) : Binary64 := .ofNat (Nat.pow 10 n)

/-- A double times a power of ten; none if the result is too large. Powers below the smallest one
that is used in one step are taken in several steps. -/
def scale? (x : Binary64) (power : Int) : Option Binary64 :=
  if power.natAbs ≤ maxPower then
    if 0 ≤ power then
      let y := x * tenTo power.natAbs
      if y.isFinite then some y else none
    else some (x / tenTo power.natAbs)
  else if x.isZero then some x
  else if 0 ≤ power then none
  else scale? (x / tenTo maxPower) (power + maxPower)
termination_by power.natAbs
decreasing_by simp only [maxPower] at *; omega

/-- The number of a sign, a significand and a power of ten. -/
def scaled (negative : Bool) (significand : Nat) (power : Int) : Except Error Number :=
  match scale? (.ofNat significand) power with
  | some x => .ok (.real (if negative then -x else x))
  | none => .error .malformed

/-- The number of a sign and a significand. Minus zero, and a negative number below `-2 ^ 63`, are
doubles. -/
def whole (negative : Bool) (significand : Nat) : Number :=
  if !negative then .integer significand
  else if significand = 0 ∨ 0x8000000000000000 < significand then .real (-.ofNat significand)
  else .integer (-significand)

/-! ### Reading -/

/-- The digits before the point: a single zero, or digits that do not start with one. -/
def readWhole : List UInt8 → Read (List Nat)
  | [] => .error .ended
  | b :: rest =>
    if b = byte '0' then
      if (rest.head?.map isDigit).getD false then .error .malformed else .ok ([0], rest)
    else if isDigit b then .ok (leadingDigits (b :: rest), afterDigits (b :: rest))
    else .error .malformed

/-- One or more digits. -/
def readDigits : List UInt8 → Read (List Nat)
  | [] => .error .ended
  | b :: rest =>
    if isDigit b then .ok (leadingDigits (b :: rest), afterDigits (b :: rest))
    else .error .malformed

/-- The places after a point, if there is one. -/
def readPlaces (s : List UInt8) : Read (Option (List Nat)) :=
  match s with
  | b :: rest =>
    if b = byte '.' then
      match readDigits rest with
      | .error e => .error e
      | .ok (places, rest) => .ok (some places, rest)
    else .ok (none, s)
  | [] => .ok (none, s)

/-- The sign of an exponent, which may be left out. -/
def readSign : List UInt8 → Bool × List UInt8
  | [] => (false, [])
  | b :: rest =>
    if b = byte '+' then (false, rest)
    else if b = byte '-' then (true, rest)
    else (false, b :: rest)

/-- The bound of exponents, `2 ^ 31`. -/
def exponentBound : Nat := 0x80000000

/-- The exponent, if there is one. One beyond the bound counts as the bound, which is far more than
the digits of a text can make up for. -/
def readExponent (s : List UInt8) : Read (Option Int) :=
  match s with
  | b :: rest =>
    if b = byte 'e' ∨ b = byte 'E' then
      let (negative, rest) := readSign rest
      match readDigits rest with
      | .error e => .error e
      | .ok (digits, rest) =>
        let n : Int := Numeral.capped exponentBound digits
        .ok (some (if negative then -n else n), rest)
    else .ok (none, s)
  | [] => .ok (none, s)

/-- The number of its parts. -/
def assemble (negative : Bool) (wholeDigits : List Nat) (places : Option (List Nat))
    (exponent : Option Int) : Except Error Number :=
  let (significand, dropped) := absorb 0 wholeDigits
  match places, exponent with
  | none, none =>
    if dropped = 0 then .ok (whole negative significand)
    else scaled negative significand dropped
  | none, some e => scaled negative significand (dropped + e)
  | some places, e =>
    let (significand, left) := absorb significand places
    scaled negative significand (dropped - (places.length - left : Nat) + e.getD 0)

/-- A number after its minus sign, if it has one. -/
def readNumber (negative : Bool) (s : List UInt8) : Read Number :=
  match readWhole s with
  | .error e => .error e
  | .ok (digits, s) =>
    match readPlaces s with
    | .error e => .error e
    | .ok (places, s) =>
      match readExponent s with
      | .error e => .error e
      | .ok (exponent, s) =>
        match assemble negative digits places exponent with
        | .error e => .error e
        | .ok number => .ok (number, s)

/-- A number at its first byte; none if the byte opens no number. -/
def readSignedNumber? : List UInt8 → Option (Read Number)
  | [] => none
  | b :: rest =>
    if b = byte '-' then some (readNumber true rest)
    else if isDigit b then some (readNumber false (b :: rest))
    else none

/-- A natural number in plain digits below a bound. Anything else is not JSON in this place. -/
def readNatural (bound : Nat) (s : List UInt8) : Read Nat :=
  match skipSpace s with
  | [] => .error .ended
  | b :: rest =>
    if isDigit b then
      match readWhole (b :: rest) with
      | .error e => .error e
      | .ok (digits, rest) =>
        let n := Numeral.capped bound digits
        if n < bound then .ok (n, rest) else .error .malformed
    else .error .malformed

theorem length_readWhole {s rest : List UInt8} {ds : List Nat}
    (h : readWhole s = .ok (ds, rest)) : rest.length < s.length := by
  unfold readWhole at h
  repeat' split at h
  all_goals cases h
  · exact Nat.lt_succ_self _
  · next hb => exact length_afterDigits_cons hb

theorem length_readDigits {s rest : List UInt8} {ds : List Nat}
    (h : readDigits s = .ok (ds, rest)) : rest.length < s.length := by
  unfold readDigits at h
  repeat' split at h
  all_goals cases h
  next hb => exact length_afterDigits_cons hb

theorem length_readSign_le (s : List UInt8) : (readSign s).2.length ≤ s.length := by
  unfold readSign
  repeat' split
  all_goals simp

theorem length_readPlaces_le {s rest : List UInt8} {ds : Option (List Nat)}
    (h : readPlaces s = .ok (ds, rest)) : rest.length ≤ s.length := by
  unfold readPlaces at h
  repeat' split at h
  all_goals cases h
  · have := length_readDigits ‹readDigits _ = _›
    simp only [List.length_cons]
    omega
  · exact Nat.le_refl _
  · exact Nat.le_refl _

theorem length_readExponent_le {s rest : List UInt8} {e : Option Int}
    (h : readExponent s = .ok (e, rest)) : rest.length ≤ s.length := by
  unfold readExponent at h
  split at h
  · next b more =>
    split at h
    · have hs := length_readSign_le more
      simp only at h
      split at h
      · cases h
      · have := length_readDigits ‹readDigits _ = _›
        cases h
        simp only [List.length_cons]
        omega
    · cases h
      exact Nat.le_refl _
  · cases h
    exact Nat.le_refl _

theorem length_readNumber {negative : Bool} {s rest : List UInt8} {n : Number}
    (h : readNumber negative s = .ok (n, rest)) : rest.length < s.length := by
  unfold readNumber at h
  repeat' split at h
  all_goals cases h
  have := length_readWhole ‹readWhole _ = _›
  have := length_readPlaces_le ‹readPlaces _ = _›
  have := length_readExponent_le ‹readExponent _ = _›
  omega

theorem length_readSignedNumber? {s rest : List UInt8} {n : Number}
    (h : readSignedNumber? s = some (.ok (n, rest))) : rest.length < s.length := by
  unfold readSignedNumber? at h
  repeat' split at h
  · cases h
  · have := length_readNumber (Option.some.inj h)
    simp only [List.length_cons]
    omega
  · exact length_readNumber (Option.some.inj h)
  · cases h

theorem length_readNatural {bound n : Nat} {s rest : List UInt8}
    (h : readNatural bound s = .ok (n, rest)) : rest.length < s.length := by
  have hs := length_skipSpace_le s
  unfold readNatural at h
  split at h
  · cases h
  · next hb =>
    rw [hb] at hs
    split at h
    · split at h
      · cases h
      · next hw =>
        simp only at h
        split at h
        · cases h
          exact Nat.lt_of_lt_of_le (length_readWhole hw) hs
        · cases h
    · cases h

/-! ### Passing over -/

/-- Passes over the digits of a number, of which there has to be one. -/
def skipDigits : List UInt8 → Except Error (List UInt8)
  | [] => .error .malformed
  | b :: rest => if isDigit b then .ok (afterDigits rest) else .error .malformed

/-- Passes over an exponent, if there is one. -/
def skipExponent (s : List UInt8) : Except Error (List UInt8) :=
  match s with
  | b :: rest =>
    if b = byte 'e' ∨ b = byte 'E' then skipDigits (readSign rest).2 else .ok s
  | [] => .ok s

/-- Passes over a number after its minus sign, if it has one. Whatever is wrong with it, the text
is not JSON, even when it ends too early. -/
def skipNumber (s : List UInt8) : Except Error (List UInt8) :=
  match readWhole s with
  | .error _ => .error .malformed
  | .ok (_, []) => .ok []
  | .ok (_, b :: rest) =>
    if b = byte '.' then
      match skipDigits rest with
      | .error e => .error e
      | .ok rest => skipExponent rest
    else skipExponent (b :: rest)

theorem length_skipDigits {s rest : List UInt8} (h : skipDigits s = .ok rest) :
    rest.length < s.length := by
  unfold skipDigits at h
  repeat' split at h
  all_goals cases h
  exact Nat.lt_succ_of_le (length_afterDigits_le _)

theorem length_skipExponent_le {s rest : List UInt8} (h : skipExponent s = .ok rest) :
    rest.length ≤ s.length := by
  unfold skipExponent at h
  split at h
  · next b more =>
    split at h
    · have := length_skipDigits h
      have := length_readSign_le more
      simp only [List.length_cons]
      omega
    · cases h
      exact Nat.le_refl _
  · cases h
    exact Nat.le_refl _

theorem length_skipNumber {s rest : List UInt8} (h : skipNumber s = .ok rest) :
    rest.length < s.length := by
  unfold skipNumber at h
  split at h
  · cases h
  · cases h
    exact length_readWhole ‹readWhole _ = _›
  · have hw := length_readWhole ‹readWhole _ = _›
    simp only [List.length_cons] at hw
    split at h
    · split at h
      · cases h
      · have := length_skipDigits ‹skipDigits _ = _›
        have := length_skipExponent_le h
        omega
    · have := length_skipExponent_le h
      simp only [List.length_cons] at this
      omega

end HotFrames.Json

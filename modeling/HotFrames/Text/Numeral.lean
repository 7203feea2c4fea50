/-!
# Decimal numerals

Reading a natural number from decimal digits. A reader knows a bound of the numbers it wants, and
never computes beyond it, however many digits there are. The written form of a number is the core
library's, filled up on the left where it has to have a given width.
-/

namespace HotFrames

namespace Numeral

/-! ### Digits -/

/-- The natural number of some decimal digits, the first one weighing most. -/
def ofDigits (ds : List Nat) : Nat := ds.foldl (fun n d => n * 10 + d) 0

/-- The natural number of some decimal digits, or the bound if the number is not below it. -/
def capped (bound : Nat) (ds : List Nat) : Nat :=
  ds.foldl (fun n d => min (n * 10 + d) bound) 0

theorem foldl_capped (bound n : Nat) (ds : List Nat) :
    ds.foldl (fun n d => min (n * 10 + d) bound) (min n bound) =
      min (ds.foldl (fun n d => n * 10 + d) n) bound := by
  induction ds generalizing n with
  | nil => rfl
  | cons d ds ih =>
    have h : min (min n bound * 10 + d) bound = min (n * 10 + d) bound := by omega
    rw [List.foldl_cons, List.foldl_cons, h, ih]

theorem capped_eq_min (bound : Nat) (ds : List Nat) :
    capped bound ds = min (ofDigits ds) bound := by
  have h := foldl_capped bound 0 ds
  rwa [Nat.zero_min] at h

/-! ### Texts -/

/-- The digit that an ASCII digit stands for. -/
def digit (c : Char) : Nat := c.toNat - '0'.toNat

/-- Whether a text consists of one or more ASCII digits. -/
def isNumeral (cs : List Char) : Bool := !cs.isEmpty && cs.all Char.isDigit

/-- The number that a numeral stands for; leading zeros are allowed. -/
def value (cs : List Char) : Nat := ofDigits (cs.map digit)

/-- The number below a bound that a text of one or more ASCII digits stands for. -/
def read? (bound : Nat) (cs : List Char) : Option Nat :=
  if isNumeral cs then
    let n := capped bound (cs.map digit)
    if n < bound then some n else none
  else none

/-- A text without one plus sign at its front. -/
def dropPlus : List Char → List Char
  | '+' :: cs => cs
  | cs => cs

/-- The number below a bound that is written by digits, which may follow one plus sign. -/
def readSigned? (bound : Nat) (cs : List Char) : Option Nat := read? bound (dropPlus cs)

theorem read?_eq_some_iff {bound n : Nat} {cs : List Char} :
    read? bound cs = some n ↔ isNumeral cs ∧ value cs = n ∧ n < bound := by
  unfold read?
  split
  · next h =>
    simp only [capped_eq_min, value, h, true_and]
    split
    · simp only [Option.some.injEq]; omega
    · simp only [reduceCtorEq, false_iff]; omega
  · next h => simp [h]

theorem value_toDigits (n : Nat) : value (Nat.toDigits 10 n) = n := by
  have h := Nat.ofDigitChars_toDigits (b := 10) (n := n) (by decide) (by decide)
  simpa [Nat.ofDigitChars_eq_foldl, value, ofDigits, digit, List.foldl_map, Nat.mul_comm] using h

theorem isNumeral_toDigits (n : Nat) : isNumeral (Nat.toDigits 10 n) = true := by
  have hne : (Nat.toDigits 10 n).isEmpty = false := by
    rw [Nat.toDigits_eq_if (by decide)]
    split <;> simp
  have hall : (Nat.toDigits 10 n).all Char.isDigit = true :=
    List.all_eq_true.2 fun _ h => Nat.isDigit_of_mem_toDigits (by decide) (by decide) h
  simp [isNumeral, hne, hall]

theorem read?_toDigits {bound n : Nat} (h : n < bound) :
    read? bound (Nat.toDigits 10 n) = some n :=
  read?_eq_some_iff.2 ⟨isNumeral_toDigits n, value_toDigits n, h⟩

end Numeral

/-! ### Padding -/

namespace Padded

/-- The text at the end of a field of a given width, after spaces. -/
def right (width : Nat) (text : String) : String :=
  String.ofList (List.replicate (width - text.length) ' ') ++ text

/-- A natural number in decimal with at least `width` digits. -/
def zeros (width n : Nat) : String :=
  let digits := Nat.toDigits 10 n
  String.ofList (List.replicate (width - digits.length) '0' ++ digits)

end Padded

end HotFrames

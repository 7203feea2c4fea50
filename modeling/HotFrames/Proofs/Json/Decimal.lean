import HotFrames.Proofs.Binary64.Shortest
import HotFrames.Proofs.Json.Real

/-!
# Values of written decimals

No digit of a written decimal is dropped, so that it is read as its coefficient and its exponent
(`Parts.number_ofDecimal`).  A whole number that is written in full has a place behind the point, and
so a coefficient that is ten times as large (`Decimal.asWritten`).
-/

namespace HotFrames.Json

open Numeral

/-! ## Digits that fit -/

/-- Digits behind the digits of a number. -/
def appendDigits (n : ℕ) (ds : List ℕ) : ℕ := ds.foldl (fun n d => n * 10 + d) n

theorem le_appendDigits (n : ℕ) (ds : List ℕ) : n ≤ appendDigits n ds := by
  induction ds generalizing n with
  | nil => exact Nat.le_refl n
  | cons d ds ih =>
    exact Nat.le_trans (by omega : n ≤ n * 10 + d) (ih (n * 10 + d))

/-- Digits are taken as long as the number they make fits. -/
theorem absorb_eq {n : ℕ} {ds : List ℕ} (h : appendDigits n ds < significandBound) :
    absorb n ds = (appendDigits n ds, 0) := by
  induction ds generalizing n with
  | nil => rfl
  | cons d ds ih =>
    have hfits : n * 10 + d < significandBound :=
      Nat.lt_of_le_of_lt (le_appendDigits (n * 10 + d) ds) h
    rw [absorb, if_pos hfits]
    exact ih h

variable {negative : Bool} {whole places : List ℕ}

theorem assemble_places (h : ofDigits (whole ++ places) < significandBound) (exponent : Option ℤ) :
    assemble negative whole (some places) exponent =
      scaled negative (ofDigits (whole ++ places)) (exponent.getD 0 - places.length) := by
  have happend : ofDigits (whole ++ places) = appendDigits (ofDigits whole) places :=
    List.foldl_append
  rw [happend] at h ⊢
  have hwhole : absorb 0 whole = (ofDigits whole, 0) :=
    absorb_eq (Nat.lt_of_le_of_lt (le_appendDigits _ places) h)
  simp only [assemble, hwhole, absorb_eq h, Nat.sub_zero, Nat.cast_zero]
  congr 1
  ring

theorem assemble_exponent (h : ofDigits whole < significandBound) (exponent : ℤ) :
    assemble negative whole none (some exponent) = scaled negative (ofDigits whole) exponent := by
  have hwhole : absorb 0 whole = (ofDigits whole, 0) := absorb_eq h
  simp only [assemble, hwhole, Nat.cast_zero, zero_add]

/-! ## Numerals -/

theorem value_append_zero (cs : List Char) : value (cs ++ ['0']) = value cs * 10 := by
  rw [value, List.map_append, ofDigits, List.foldl_append]
  rfl

theorem value_append_zeros (cs : List Char) (k : ℕ) :
    value (cs ++ List.replicate k '0') = value cs * 10 ^ k := by
  induction k with
  | zero => simp
  | succ k ih =>
    rw [List.replicate_succ', ← List.append_assoc, value_append_zero, ih, Nat.pow_succ,
      Nat.mul_assoc]

theorem value_zeros_append (k : ℕ) (cs : List Char) :
    value (List.replicate k '0' ++ cs) = value cs := by
  induction k with
  | zero => rfl
  | succ k ih =>
    rw [List.replicate_succ, List.cons_append, ← ih]
    rfl

end HotFrames.Json

namespace HotFrames.Binary64.Decimal

/-- A decimal as it is written: a whole number that is written in full has a zero behind the point. -/
def asWritten (d : Decimal) : Decimal :=
  if 0 ≤ d.exponent ∧ d.first < 16 then ⟨d.coefficient * 10 ^ (d.exponent.toNat + 1), -1⟩ else d

theorem value_asWritten (d : Decimal) : d.asWritten.value = d.value := by
  unfold asWritten
  split
  · next h =>
    obtain ⟨n, hn⟩ := Int.eq_ofNat_of_zero_le h.1
    rw [value, value, hn, Int.toNat_natCast]
    push_cast
    rw [pow_succ, zpow_natCast, zpow_neg_one]
    field_simp
  · rfl

theorem coefficient_asWritten_pos {d : Decimal} (h : d.coefficient ≠ 0) :
    0 < d.asWritten.coefficient := by
  unfold asWritten
  split
  · exact Nat.mul_pos (Nat.pos_of_ne_zero h) (Nat.pow_pos (by decide))
  · exact Nat.pos_of_ne_zero h

theorem coefficient_asWritten_le {d : Decimal} (h : d.coefficient ≤ 10 ^ 17) :
    d.asWritten.coefficient ≤ 10 ^ 17 := by
  unfold asWritten
  split
  · next hfull =>
    -- In full there are sixteen digits at most.
    have hlength := (Nat.length_toDigits_le_iff (n := d.coefficient) (b := 10) (by decide)
      (List.length_pos_iff.2 Nat.toDigits_ne_nil)).1 (Nat.le_refl _)
    have hfirst : (Nat.toDigits 10 d.coefficient).length + (d.exponent.toNat + 1) ≤ 17 := by
      unfold first at hfull
      omega
    calc d.coefficient * 10 ^ (d.exponent.toNat + 1)
        ≤ 10 ^ (Nat.toDigits 10 d.coefficient).length * 10 ^ (d.exponent.toNat + 1) :=
          Nat.mul_le_mul_right _ hlength.le
      _ = 10 ^ ((Nat.toDigits 10 d.coefficient).length + (d.exponent.toNat + 1)) :=
          (Nat.pow_add _ _ _).symm
      _ ≤ 10 ^ 17 := Nat.pow_le_pow_right (by decide) hfirst
  · exact h

end HotFrames.Binary64.Decimal

namespace HotFrames.Json.Parts

open Numeral Binary64

variable {d : Decimal} {negative : Bool}

theorem number_some (p : Parts) {places : List Char} (hplaces : p.places = some places)
    (h : value (p.whole ++ places) < significandBound) :
    p.number negative = scaled negative (value (p.whole ++ places))
      ((p.exponent.map clamped).getD 0 - places.length) := by
  rw [value, List.map_append] at h ⊢
  rw [number, hplaces, Option.map_some, assemble_places h, List.length_map]

theorem number_none (p : Parts) {exponent : ℤ} (hplaces : p.places = none)
    (hexponent : p.exponent = some exponent) (h : value p.whole < significandBound) :
    p.number negative = scaled negative (value p.whole) (clamped exponent) := by
  rw [number, hplaces, hexponent, Option.map_none, Option.map_some, assemble_exponent h]
  rfl

theorem lt_significandBound {n : ℕ} (h : n ≤ 10 ^ 17) : n < significandBound :=
  Nat.lt_of_le_of_lt h (by decide)

section Layout

variable {cs : List Char} (h : Significant cs) (hvalue : value cs = d.coefficient)
  (hfirst : d.first = d.exponent + cs.length - 1) (hle : d.coefficient ≤ 10 ^ 17)
include hvalue hfirst hle

theorem number_full (hfull : 0 ≤ d.first ∧ d.first < 16) :
    (full h d.first.toNat).number negative =
      scaled negative d.asWritten.coefficient d.asWritten.exponent := by
  have hfits := lt_significandBound (Decimal.coefficient_asWritten_le hle)
  have hpos := List.length_pos_iff.2 h.ne_nil
  by_cases hwhole : 0 ≤ d.exponent
  · -- All digits are before the point.
    have hall : cs.length ≤ d.first.toNat + 1 := by omega
    have htext : cs.take (d.first.toNat + 1) ++
        List.replicate (d.first.toNat + 1 - cs.length) '0' ++ ['0'] =
        cs ++ List.replicate (d.exponent.toNat + 1) '0' := by
      rw [List.take_of_length_le hall, List.append_assoc, ← List.replicate_succ',
        (by omega : d.first.toNat + 1 - cs.length = d.exponent.toNat)]
    have hplaces : (full h d.first.toNat).places = some ['0'] := by
      simp only [full, List.drop_of_length_le hall]
      rfl
    have hdigits : (full h d.first.toNat).whole ++ ['0'] =
        cs ++ List.replicate (d.exponent.toNat + 1) '0' := htext
    have hcoefficient : d.asWritten.coefficient =
        value ((full h d.first.toNat).whole ++ ['0']) := by
      rw [hdigits, value_append_zeros, hvalue, Decimal.asWritten, if_pos ⟨hwhole, hfull.2⟩]
    have hexponent : d.asWritten.exponent = -1 := by
      rw [Decimal.asWritten, if_pos ⟨hwhole, hfull.2⟩]
    rw [number_some _ hplaces (hcoefficient ▸ hfits), hcoefficient, hexponent]
    rfl
  · have hwritten : d.asWritten = d := if_neg fun hd => hwhole hd.1
    have hsome : d.first.toNat + 1 < cs.length := by omega
    have hplaces : (full h d.first.toNat).places = some (cs.drop (d.first.toNat + 1)) := by
      simp only [full]
      rw [if_neg]
      simp only [List.isEmpty_iff, List.drop_eq_nil_iff]
      omega
    have hdigits : (full h d.first.toNat).whole ++ cs.drop (d.first.toNat + 1) = cs := by
      simp only [full]
      rw [Nat.sub_eq_zero_of_le hsome.le, List.replicate_zero, List.append_nil,
        List.take_append_drop]
    rw [hwritten] at hfits ⊢
    rw [number_some _ hplaces (by rwa [hdigits, hvalue]), hdigits, hvalue, List.length_drop]
    congr 1
    simp only [full, Option.map_none, Option.getD_none]
    omega

theorem number_small (hsmall : -5 ≤ d.first ∧ d.first < 0) :
    (small h ((-d.first).toNat - 1)).number negative =
      scaled negative d.asWritten.coefficient d.asWritten.exponent := by
  have hpos := List.length_pos_iff.2 h.ne_nil
  have hwritten : d.asWritten = d := if_neg fun hd => by omega
  have hdigits : value ((small h ((-d.first).toNat - 1)).whole ++
      (List.replicate ((-d.first).toNat - 1) '0' ++ cs)) = d.coefficient := by
    rw [← hvalue, ← value_zeros_append ((-d.first).toNat - 1) cs]
    exact value_zeros_append 1 _
  rw [hwritten, number_some (small h _) rfl (hdigits ▸ lt_significandBound hle), hdigits]
  congr 1
  rw [List.length_append, List.length_replicate]
  simp only [small, Option.map_none, Option.getD_none]
  omega

theorem number_scientific (hfull : ¬ (0 ≤ d.first ∧ d.first < 16))
    (hbound : d.first.natAbs ≤ exponentBound) :
    (scientific h d.first).number negative =
      scaled negative d.asWritten.coefficient d.asWritten.exponent := by
  have hpos := List.length_pos_iff.2 h.ne_nil
  have hwritten : d.asWritten = d := if_neg fun hd => hfull ⟨by omega, hd.2⟩
  have hclamped : clamped d.first = d.first := by
    unfold clamped
    omega
  have hdigits : (scientific h d.first).whole ++ cs.drop 1 = cs := List.take_append_drop 1 cs
  have hfits := lt_significandBound hle
  rw [hwritten]
  by_cases hone : cs.drop 1 = []
  · have hplaces : (scientific h d.first).places = none :=
      if_pos (List.isEmpty_iff.2 hone)
    rw [hone, List.append_nil] at hdigits
    rw [number_none _ hplaces rfl (by rwa [hdigits, hvalue]), hdigits, hvalue, hclamped]
    have := List.drop_eq_nil_iff.1 hone
    congr 1
    omega
  · have hplaces : (scientific h d.first).places = some (cs.drop 1) :=
      if_neg fun hempty => hone (List.isEmpty_iff.1 hempty)
    rw [number_some _ hplaces (by rwa [hdigits, hvalue]), hdigits, hvalue, List.length_drop]
    congr 1
    simp only [scientific, Option.map_some, Option.getD_some, hclamped]
    omega

end Layout

/-- **A written decimal is read as its coefficient and its exponent**, as they are written. -/
theorem number_ofDecimal (hd : d.coefficient ≠ 0) (hle : d.coefficient ≤ 10 ^ 17)
    (hbound : d.first.natAbs ≤ exponentBound) :
    (ofDecimal d hd).number negative =
      scaled negative d.asWritten.coefficient d.asWritten.exponent := by
  have hvalue : value (Nat.toDigits 10 d.coefficient) = d.coefficient := value_toDigits _
  unfold ofDecimal
  split
  · next hfull => exact number_full _ hvalue rfl hle hfull
  · next hfull =>
    split
    · next hsmall => exact number_small _ hvalue rfl hle hsmall
    · exact number_scientific _ hvalue rfl hle hfull hbound

end HotFrames.Json.Parts

import HotFrames.Proofs.Binary64.Rounding

/-!
# Errors of arithmetic

Within the range of the doubles a quotient or a product of magnitudes is the rounded quotient or
product (`Binary64.nearest_div`, `Binary64.nearest_mul`), and rounding changes a number by at most a
part of `2 ^ 53 + 1` (`Binary64.rounded_error`).  So a quotient or product of two rounded numbers
differs from the exact one by at most a part of `2 ^ 52` (`Binary64.div_error`,
`Binary64.mul_error`).  Whole numbers up to `2 ^ 53` and powers of ten up to `10 ^ 22` are not
changed (`Binary64.rounded_natCast`, `Binary64.rounded_pow_ten`).  Rounding keeps the order of numbers
(`Binary64.rounded_mono`).
-/

namespace HotFrames.Binary64

/-! ## Rounded numbers -/

/-- The number that a magnitude is. -/
def magnitude (rank : ℕ) : ℚ := units rank / unitsPerOne

/-- A number rounded to a magnitude. -/
def rounded (x : ℚ) : ℚ := magnitude (rankOf x)

/-- The double nearest to a number that is not negative. -/
def nearest (x : ℚ) : Binary64 := ofRank false (rankOf x)

theorem unitsPerOne_cast_pos : (0 : ℚ) < unitsPerOne := Nat.cast_pos.2 unitsPerOne_pos

theorem ofRatio_eq_nearest (num : ℕ) {den : ℕ} (hden : 0 < den) :
    ofRatio false num den = nearest (num / den) := by
  rw [ofRatio, nearest, nearestRank_eq_rankOf num hden]

theorem ofNat_eq_nearest (n : ℕ) : ofNat n = nearest n := by
  rw [ofNat, ofRatio_eq_nearest n Nat.one_pos, Nat.cast_one, div_one]

theorem units_eq (rank : ℕ) : (units rank : ℚ) = magnitude rank * unitsPerOne :=
  (div_mul_cancel₀ _ unitsPerOne_cast_pos.ne').symm

theorem finite_mul_finite (a b : Fin finiteRanks) :
    finite false a * finite false b = nearest (magnitude a * magnitude b) := by
  have hden := Nat.mul_pos unitsPerOne_pos unitsPerOne_pos
  have hmul : finite false a * finite false b =
      ofRatio false (units a * units b) (unitsPerOne * unitsPerOne) := rfl
  rw [hmul, ofRatio_eq_nearest _ hden, Nat.cast_mul, Nat.cast_mul, mul_div_mul_comm]
  rfl

theorem finite_div_finite (a : Fin finiteRanks) {b : Fin finiteRanks} (hb : b.val ≠ 0) :
    finite false a / finite false b = nearest (magnitude a / magnitude b) := by
  have hdiv : finite false a / finite false b =
      if b.val = 0 then (if a.val = 0 then nan else infinite false)
      else ofRatio false (units a) (units b) := rfl
  rw [hdiv, if_neg hb, ofRatio_eq_nearest _ (units_pos hb), magnitude, magnitude,
    div_div_div_cancel_right₀ unitsPerOne_cast_pos.ne']

/-! ## The range -/

/-- Whether a number is between a power of two and its inverse. -/
def Within (k : ℕ) (x : ℚ) : Prop := (2 ^ k)⁻¹ ≤ x ∧ x ≤ 2 ^ k

section Within

variable {i j k : ℕ} {x y : ℚ}

theorem Within.pos (h : Within k x) : 0 < x := lt_of_lt_of_le (by positivity) h.1

theorem Within.mono (h : Within i x) (hij : i ≤ j) : Within j x := by
  have hpow : (2 : ℚ) ^ i ≤ 2 ^ j := pow_le_pow_right₀ (by norm_num) hij
  exact ⟨(inv_anti₀ (by positivity) hpow).trans h.1, h.2.trans hpow⟩

theorem Within.mul (hx : Within i x) (hy : Within j y) : Within (i + j) (x * y) := by
  unfold Within
  rw [pow_add, mul_inv]
  exact ⟨mul_le_mul hx.1 hy.1 (by positivity) hx.pos.le,
    mul_le_mul hx.2 hy.2 hy.pos.le (by positivity)⟩

theorem Within.inv (h : Within k x) : Within k x⁻¹ :=
  ⟨inv_anti₀ h.pos h.2, inv_le_of_inv_le₀ (by positivity) h.1⟩

theorem Within.div (hx : Within i x) (hy : Within j y) : Within (i + j) (x / y) := by
  rw [div_eq_mul_inv]
  exact hx.mul hy.inv

theorem Within.pow (h : Within k x) (n : ℕ) : Within (k * n) (x ^ n) := by
  unfold Within
  rw [pow_mul, ← inv_pow]
  exact ⟨pow_le_pow_left₀ (by positivity) h.1 n, pow_le_pow_left₀ h.pos.le h.2 n⟩

theorem within_natCast {n : ℕ} (hn : 0 < n) (hnk : n ≤ 2 ^ k) : Within k n :=
  ⟨(inv_le_one_of_one_le₀ (one_le_pow₀ (by norm_num))).trans (by exact_mod_cast hn),
    by exact_mod_cast hnk⟩

end Within

/-! ## Rounding in the range -/

theorem magnitude_nonneg (rank : ℕ) : 0 ≤ magnitude rank :=
  div_nonneg (Nat.cast_nonneg _) (Nat.cast_nonneg _)

theorem rounded_nonneg (x : ℚ) : 0 ≤ rounded x := magnitude_nonneg _

theorem magnitude_mono {a b : ℕ} (h : a ≤ b) : magnitude a ≤ magnitude b :=
  div_le_div_of_nonneg_right (Nat.cast_le.2 (units_strictMono.monotone h)) unitsPerOne_cast_pos.le

theorem le_rounded {rank : ℕ} {x : ℚ} (h : magnitude rank ≤ x) : magnitude rank ≤ rounded x := by
  have hx : 0 ≤ x := (magnitude_nonneg rank).trans h
  apply magnitude_mono
  apply (roundsTo_rankOf hx).le_of_units_le
  rw [units_eq]
  exact mul_le_mul_of_nonneg_right h unitsPerOne_cast_pos.le

theorem rounded_le {rank : ℕ} {x : ℚ} (hx : 0 ≤ x) (h : x ≤ magnitude rank) :
    rounded x ≤ magnitude rank := by
  apply magnitude_mono
  apply (roundsTo_rankOf hx).le_of_le_units
  rw [units_eq]
  exact mul_le_mul_of_nonneg_right h unitsPerOne_cast_pos.le

/-- Rounding keeps the order of numbers. -/
theorem rounded_mono {x y : ℚ} (hx : 0 ≤ x) (h : x ≤ y) : rounded x ≤ rounded y := by
  apply magnitude_mono
  by_contra hlt
  obtain ⟨n, hn⟩ := Nat.exists_eq_add_of_lt (Nat.lt_of_not_le hlt)
  -- A number that is rounded further up is not below the middle that the other one is not above.
  have hmiddle : (middle (rankOf y) : ℚ) ≤ middle (rankOf y + n) :=
    Nat.cast_le.2 (middle_strictMono.monotone (Nat.le_add_right _ _))
  have hle := (roundsTo_rankOf (hx.trans h)).le_middle
  have hge := (roundsTo_rankOf hx).middle_le _ hn
  have hunits : y * unitsPerOne ≤ x * unitsPerOne := by linarith
  have hsame : x = y := le_antisymm h (le_of_mul_le_mul_right hunits unitsPerOne_cast_pos)
  exact hlt (hsame ▸ le_rfl)

/-- A magnitude is not changed. -/
theorem rounded_magnitude (rank : ℕ) : rounded (magnitude rank) = magnitude rank :=
  le_antisymm (rounded_le (magnitude_nonneg rank) le_rfl) (le_rounded le_rfl)

theorem magnitude_zero : magnitude 0 = 0 := by
  rw [magnitude, units_zero, Nat.cast_zero, zero_div]

theorem ne_zero_of_within {k rank : ℕ} (h : Within k (magnitude rank)) : rank ≠ 0 := by
  rintro rfl
  exact lt_irrefl 0 (magnitude_zero ▸ h.pos)

theorem magnitude_eq_inv_pow {rank i j : ℕ} (h : units rank = 2 ^ i) (hij : i + j = 1074) :
    magnitude rank = (2 ^ j)⁻¹ := by
  have hU : unitsPerOne = 2 ^ i * 2 ^ j := by rw [unitsPerOne_eq, ← Nat.pow_add, hij]
  rw [magnitude, h, hU]
  push_cast
  field_simp

theorem magnitude_eq_pow {rank k : ℕ} (h : units rank = unitsPerOne * 2 ^ k) :
    magnitude rank = 2 ^ k := by
  rw [magnitude, h, Nat.cast_mul, mul_div_cancel_left₀ _ unitsPerOne_cast_pos.ne']
  push_cast
  rfl

/-- The powers of two in the range are magnitudes. -/
theorem exists_magnitude_pow {k : ℕ} (hk : k ≤ 1022) :
    ∃ a b, magnitude a = (2 ^ k)⁻¹ ∧ magnitude b = 2 ^ k := by
  obtain ⟨a, ha⟩ := exists_units_eq_pow (1074 - k)
  obtain ⟨b, hb⟩ := exists_units_eq_pow (1074 + k)
  refine ⟨a, b, magnitude_eq_inv_pow ha (by omega), magnitude_eq_pow ?_⟩
  rw [hb, unitsPerOne_eq, ← Nat.pow_add]

/-- A number that is rounded into the range is in the range of the next power of two. -/
theorem within_of_rounded {k : ℕ} {x : ℚ} (hx : 0 ≤ x) (h : Within k (rounded x)) (hk : k < 1022) :
    Within (k + 1) x := by
  obtain ⟨a, b, ha, hb⟩ := exists_magnitude_pow hk
  have hpow : (2 : ℚ) ^ k < 2 ^ (k + 1) := pow_lt_pow_right₀ (by norm_num) (Nat.lt_succ_self k)
  constructor
  · by_contra hlt
    have hle := rounded_le hx ((le_of_not_ge hlt).trans ha.ge)
    rw [ha] at hle
    exact absurd (h.1.trans hle) (not_le_of_gt (inv_strictAnti₀ (by positivity) hpow))
  · by_contra hlt
    have hle := le_rounded (hb.le.trans (le_of_not_ge hlt))
    rw [hb] at hle
    exact absurd (hle.trans h.2) (not_le_of_gt hpow)

section

variable {k : ℕ} {x : ℚ} (hx : Within k x) (hk : k ≤ 1022)
include hx hk

theorem rounded_within : Within k (rounded x) := by
  obtain ⟨a, b, hlow, hhigh⟩ := exists_magnitude_pow hk
  exact ⟨hlow ▸ le_rounded (hlow ▸ hx.1), hhigh ▸ rounded_le hx.pos.le (hhigh ▸ hx.2)⟩

theorem rankOf_lt_finiteRanks : rankOf x < finiteRanks := by
  have hunits : units finiteRanks = unitsPerOne * 2 ^ 1024 := by decide +kernel
  by_contra hge
  have hle := (magnitude_mono (Nat.le_of_not_lt hge)).trans (rounded_within hx hk).2
  rw [magnitude_eq_pow hunits] at hle
  have hlt : (2 : ℚ) ^ k < 2 ^ 1024 := pow_lt_pow_right₀ (by norm_num) (by omega)
  exact absurd hle (not_le_of_gt hlt)

/-- A number in the range is rounded to a finite double. -/
theorem nearest_eq : ∃ rank : Fin finiteRanks, nearest x = finite false rank ∧ rank.val = rankOf x :=
  ⟨⟨rankOf x, rankOf_lt_finiteRanks hx hk⟩, dif_pos (rankOf_lt_finiteRanks hx hk), rfl⟩

/-- **Rounding changes a number in the range by at most a part of `2 ^ 53 + 1`.** -/
theorem rounded_error : (2 ^ 53 + 1) * |rounded x - x| ≤ x := by
  have hU := unitsPerOne_cast_pos
  have hpow : 2 ^ 52 * 2 ^ k ≤ unitsPerOne := by
    obtain ⟨j, hj⟩ := Nat.exists_eq_add_of_le (by omega : 52 + k ≤ 1074)
    rw [unitsPerOne_eq, hj, pow_add, pow_add]
    exact Nat.le_mul_of_pos_right _ (by positivity)
  have hnormal : (2 ^ 52 : ℚ) ≤ x * unitsPerOne := by
    calc (2 ^ 52 : ℚ) ≤ (2 ^ k)⁻¹ * unitsPerOne := by
          rw [inv_mul_eq_div, le_div_iff₀ (by positivity)]
          exact_mod_cast hpow
      _ ≤ x * unitsPerOne := mul_le_mul_of_nonneg_right hx.1 hU.le
  have h := (roundsTo_rankOf hx.pos.le).error_le hnormal
  rw [units_eq, ← sub_mul, abs_mul, abs_of_pos hU, ← mul_assoc] at h
  exact le_of_mul_le_mul_right h hU

end

section Operations

variable {i j : ℕ} {x y : ℚ} (hx : Within i x) (hi : i ≤ 1022) (hy : Within j y) (hj : j ≤ 1022)
include hx hi hy hj

/-- **A product is the rounded product of the rounded numbers.** -/
theorem nearest_mul : nearest x * nearest y = nearest (rounded x * rounded y) := by
  obtain ⟨a, hxa, ha⟩ := nearest_eq hx hi
  obtain ⟨b, hyb, hb⟩ := nearest_eq hy hj
  rw [hxa, hyb, finite_mul_finite, ha, hb]
  rfl

/-- **A quotient is the rounded quotient of the rounded numbers.** -/
theorem nearest_div : nearest x / nearest y = nearest (rounded x / rounded y) := by
  obtain ⟨a, hxa, ha⟩ := nearest_eq hx hi
  obtain ⟨b, hyb, hb⟩ := nearest_eq hy hj
  have hne : b.val ≠ 0 := by
    rw [hb]
    exact ne_zero_of_within (rounded_within hy hj)
  rw [hxa, hyb, finite_div_finite a hne, ha, hb]
  rfl

end Operations

/-! ## Zero -/

theorem zero_eq : zero = finite false ⟨0, by decide⟩ := by decide +kernel

theorem nearest_zero : nearest 0 = zero := by
  rw [zero, ofNat_eq_nearest, Nat.cast_zero]

theorem zero_div_finite {b : Fin finiteRanks} (hb : b.val ≠ 0) : zero / finite false b = zero := by
  rw [zero_eq, finite_div_finite _ hb, magnitude_zero, zero_div, nearest_zero, zero_eq]

theorem zero_mul_finite (b : Fin finiteRanks) : zero * finite false b = zero := by
  rw [zero_eq, finite_mul_finite, magnitude_zero, zero_mul, nearest_zero, zero_eq]

/-! ## The number that a double is -/

/-- The number that a finite double is; zero for the others. -/
def toRat : Binary64 → ℚ
  | finite negative rank => if negative then -magnitude rank else magnitude rank
  | _ => 0

theorem toRat_zero : zero.toRat = 0 := by
  rw [zero_eq, toRat, magnitude_zero]
  rfl

theorem isAtMost_of_toRat {n : ℕ} {x : Binary64} (hfinite : x.isFinite = true) (hx : 0 ≤ x.toRat)
    (h : x.toRat ≤ n) : x.IsAtMost n := by
  cases x with
  | finite negative rank =>
    have hmagnitude : magnitude rank ≤ n := by
      cases negative with
      | false => exact h
      | true =>
        have hzero : 0 ≤ -magnitude rank := hx
        have hn : (0 : ℚ) ≤ n := Nat.cast_nonneg n
        linarith
    have hrank : rank.val ≤ rankOf n := by
      apply (roundsTo_rankOf (Nat.cast_nonneg n)).le_of_units_le
      rw [units_eq]
      exact mul_le_mul_of_nonneg_right hmagnitude unitsPerOne_cast_pos.le
    rw [← div_one (n : ℚ), ← Nat.cast_one, ← nearestRank_eq_rankOf n Nat.one_pos] at hrank
    exact hrank
  | infinite | nan => cases hfinite

theorem toRat_nearest {k : ℕ} {x : ℚ} (hx : Within k x) (hk : k ≤ 1022) :
    (nearest x).isFinite = true ∧ (nearest x).toRat = rounded x := by
  obtain ⟨rank, hnearest, hrank⟩ := nearest_eq hx hk
  rw [hnearest, toRat, hrank]
  exact ⟨rfl, rfl⟩

/-! ## Numbers that are not changed -/

/-- A whole number of up to 53 bits, scaled to 53 bits. -/
theorem exists_scaled_significand {n : ℕ} (hn0 : n ≠ 0) (hn : n ≤ 2 ^ 53) :
    ∃ i ≤ 52, binade ≤ n * 2 ^ i ∧ n * 2 ^ i ≤ 2 * binade := by
  rcases Nat.lt_or_ge (Nat.log2 n) 53 with hlog | hlog
  · have hsplit : Nat.log2 n + (52 - Nat.log2 n) = 52 := by omega
    refine ⟨52 - Nat.log2 n, Nat.sub_le _ _, ?_, ?_⟩
    · rw [binade_eq, ← hsplit, Nat.pow_add, hsplit]
      exact Nat.mul_le_mul_right _ (Nat.log2_self_le hn0)
    · have hlt := Nat.mul_lt_mul_of_pos_right (k := 2 ^ (52 - Nat.log2 n))
        (Nat.lt_log2_self (n := n)) (Nat.pow_pos (by decide))
      rw [← Nat.pow_add, (by omega : Nat.log2 n + 1 + (52 - Nat.log2 n) = 53)] at hlt
      exact hlt.le
  · have hle : 2 ^ 53 ≤ n :=
      Nat.le_trans (Nat.pow_le_pow_right (by decide) hlog) (Nat.log2_self_le hn0)
    rw [Nat.le_antisymm hn hle]
    exact ⟨0, by decide, by decide, by decide⟩

/-- **A whole number of up to 53 bits is not changed.** -/
theorem rounded_natCast {n : ℕ} (hn : n ≤ 2 ^ 53) : rounded n = n := by
  have hmagnitude : ∃ rank, units rank = n * unitsPerOne := by
    rcases Nat.eq_zero_or_pos n with rfl | hpos
    · exact ⟨0, by rw [Nat.zero_mul, units_zero]⟩
    · obtain ⟨i, hi, hlow, hhigh⟩ := exists_scaled_significand hpos.ne' hn
      refine ⟨(1074 - i) * binade + n * 2 ^ i, ?_⟩
      rw [units_significand (.inr hlow) hhigh, Nat.mul_assoc, ← pow_add,
        (by omega : i + (1074 - i) = 1074), unitsPerOne_eq]
  obtain ⟨rank, hrank⟩ := hmagnitude
  have hvalue : magnitude rank = n := by
    rw [magnitude, hrank, Nat.cast_mul, mul_div_cancel_right₀ _ unitsPerOne_cast_pos.ne']
  rw [← hvalue, rounded_magnitude]

/-- A power of ten of up to 53 bits without its twos is a magnitude. -/
theorem rounded_pow_ten {k : ℕ} (hk : k ≤ 22) : rounded (10 ^ k) = 10 ^ k := by
  have hexact : ∀ k ≤ 22, units (nearestRank (Nat.pow 10 k) 1) = Nat.pow 10 k * unitsPerOne := by
    decide +kernel
  have hrank : rankOf (10 ^ k) = nearestRank (Nat.pow 10 k) 1 := by
    rw [nearestRank_eq_rankOf _ Nat.one_pos]
    push_cast [Nat.pow_eq]
    rw [div_one]
  rw [rounded, hrank, magnitude, hexact k hk, Nat.cast_mul, mul_div_cancel_right₀ _
    unitsPerOne_cast_pos.ne']
  push_cast [Nat.pow_eq]
  rfl

/-! ## Errors of quotients and products -/

section Errors

variable {x y x' y' : ℚ}

/-- The quotient of numbers with errors of a part of `2 ^ 53 + 1` has an error of a part of
`2 ^ 52`. -/
theorem div_error (hy : 0 < y) (hx' : (2 ^ 53 + 1) * |x' - x| ≤ x)
    (hy' : (2 ^ 53 + 1) * |y' - y| ≤ y) : 2 ^ 52 * |x' / y' - x / y| ≤ x / y := by
  have hx : 0 ≤ x := (mul_nonneg (by norm_num) (abs_nonneg _)).trans hx'
  have hlow : 2 ^ 53 * y ≤ (2 ^ 53 + 1) * y' := by
    have := neg_abs_le (y' - y)
    linarith
  have hypos : 0 < y' := by linarith
  have hcross : (2 ^ 53 + 1) * |x' * y - x * y'| ≤ 2 * (x * y) := by
    calc (2 ^ 53 + 1) * |x' * y - x * y'|
        = (2 ^ 53 + 1) * |(x' - x) * y - x * (y' - y)| := by ring_nf
      _ ≤ (2 ^ 53 + 1) * (|x' - x| * y + x * |y' - y|) := by
        apply mul_le_mul_of_nonneg_left _ (by norm_num)
        have := abs_sub ((x' - x) * y) (x * (y' - y))
        rwa [abs_mul, abs_mul, abs_of_pos hy, abs_of_nonneg hx] at this
      _ = (2 ^ 53 + 1) * |x' - x| * y + x * ((2 ^ 53 + 1) * |y' - y|) := by ring
      _ ≤ x * y + x * y :=
        add_le_add (mul_le_mul_of_nonneg_right hx' hy.le) (mul_le_mul_of_nonneg_left hy' hx)
      _ = 2 * (x * y) := by ring
  have hxy : 2 ^ 53 * (x * y) ≤ (2 ^ 53 + 1) * (x * y') := by
    have := mul_le_mul_of_nonneg_left hlow hx
    linarith
  rw [div_sub_div _ _ hypos.ne' hy.ne', abs_div, abs_of_pos (mul_pos hypos hy), mul_comm y' x,
    mul_div_assoc', div_le_div_iff₀ (mul_pos hypos hy) hy]
  have hnum : 2 ^ 52 * |x' * y - x * y'| ≤ x * y' := by linarith
  have := mul_le_mul_of_nonneg_right hnum hy.le
  linarith

/-- So has the product. -/
theorem mul_error (hx' : (2 ^ 53 + 1) * |x' - x| ≤ x)
    (hy' : (2 ^ 53 + 1) * |y' - y| ≤ y) : 2 ^ 52 * |x' * y' - x * y| ≤ x * y := by
  have hx : 0 ≤ x := (mul_nonneg (by norm_num) (abs_nonneg _)).trans hx'
  have hy : 0 ≤ y := (mul_nonneg (by norm_num) (abs_nonneg _)).trans hy'
  have hsplit : |x' * y' - x * y| ≤ |x' - x| * |y' - y| + |x' - x| * y + x * |y' - y| := by
    calc |x' * y' - x * y| = |(x' - x) * (y' - y) + (x' - x) * y + x * (y' - y)| := by ring_nf
      _ ≤ |(x' - x) * (y' - y)| + |(x' - x) * y| + |x * (y' - y)| := abs_add_three _ _ _
      _ = |x' - x| * |y' - y| + |x' - x| * y + x * |y' - y| := by
        rw [abs_mul, abs_mul, abs_mul, abs_of_nonneg hx, abs_of_nonneg hy]
  have hboth := mul_le_mul hx' hy' (mul_nonneg (by norm_num) (abs_nonneg _)) hx
  have hleft := mul_le_mul_of_nonneg_right hx' hy
  have hright := mul_le_mul_of_nonneg_left hy' hx
  have hxy := mul_nonneg hx hy
  nlinarith

end Errors

/-- How many ranks apart two numbers are rounded. -/
theorem rankOf_near {n q : ℕ} (hapart : ∀ r, middle (r + n) + q * middle r < q * middle (r + n))
    {x y : ℚ} (hx : 0 ≤ x) (h : q * |x - y| ≤ y) :
    rankOf x ≤ rankOf y + n ∧ rankOf y ≤ rankOf x + n := by
  have hU := unitsPerOne_cast_pos
  have hy : 0 ≤ y := (mul_nonneg (Nat.cast_nonneg q) (abs_nonneg _)).trans h
  apply (roundsTo_rankOf hx).rank_near hapart (roundsTo_rankOf hy)
  rw [← sub_mul, abs_mul, abs_of_pos hU, ← mul_assoc]
  exact mul_le_mul_of_nonneg_right h hU.le

end HotFrames.Binary64

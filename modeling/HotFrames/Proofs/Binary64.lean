import HotFrames.Binary64.Shortest
import Mathlib

/-!
# Magnitudes of doubles

Bounds that keep results finite: a quotient below a power of two has a rank below the corresponding
binade (`Binary64.nearestRank_le`), and a product of small enough magnitudes is finite
(`Binary64.isBelow_mul`).  The shortest decimal of a magnitude is not zero, and it is not far above
a power of ten above the magnitude (`Binary64.isWithin_shortest`).
-/

namespace HotFrames.Binary64

theorem one_shiftLeft_eq (n : ℕ) : 1 <<< n = 2 ^ n := Nat.one_shiftLeft n

theorem unitsPerOne_eq : unitsPerOne = 2 ^ 1074 := one_shiftLeft_eq 1074

theorem unitsPerOne_pos : 0 < unitsPerOne := by
  rw [unitsPerOne_eq]
  positivity

/-! ## Rounding -/

theorem div_le_roundDiv (num den : ℕ) : num / den ≤ roundDiv num den := by
  unfold roundDiv
  simp only
  split_ifs <;> omega

theorem roundDiv_le (num den : ℕ) : roundDiv num den ≤ num / den + 1 := by
  unfold roundDiv
  simp only
  split_ifs <;> omega

theorem nearestRank_le_of_lt {num den s : ℕ} (h : num * unitsPerOne / den < 2 ^ (53 + s)) :
    nearestRank num den ≤ (s + 2) * binade := by
  unfold nearestRank
  simp only
  generalize num * unitsPerOne = n at h ⊢
  -- The shift leaves at most 53 bits of the quotient.
  have hshift : Nat.log2 (n / den) - 52 ≤ s := by
    by_cases hzero : n / den = 0
    · rw [hzero]
      exact Nat.zero_le s
    · have := (Nat.log2_lt hzero).2 h
      omega
  have hbits : n / (den <<< (Nat.log2 (n / den) - 52)) < 2 ^ 53 := by
    rw [Nat.shiftLeft_eq, ← Nat.div_div_eq_div_mul]
    apply Nat.div_lt_of_lt_mul
    rw [← Nat.pow_add]
    apply Nat.lt_of_lt_of_le Nat.lt_log2_self
    exact Nat.pow_le_pow_right (by decide) (by omega)
  have hround : roundDiv n (den <<< (Nat.log2 (n / den) - 52)) ≤ 2 * binade :=
    Nat.le_trans (roundDiv_le _ _) hbits
  rw [Nat.add_mul]
  exact Nat.add_le_add (Nat.mul_le_mul_right binade hshift) hround

theorem unitsPerOne_mul (a b k : ℕ) (h : a + b = 1074 + k) :
    unitsPerOne * 2 ^ k = 2 ^ (a + b) := by
  rw [h, Nat.pow_add, unitsPerOne_eq]

theorem nearestRank_le {num den k : ℕ} (h : num * unitsPerOne / den < unitsPerOne * 2 ^ k) :
    nearestRank num den ≤ (k + 1021 + 2) * binade := by
  rw [unitsPerOne_mul 53 (k + 1021) k (by omega)] at h
  exact nearestRank_le_of_lt h

theorem units_lt {rank scale : ℕ} (h : rank / binade ≤ scale) : units rank < 2 ^ (52 + scale) := by
  have hbinade : 0 < binade := by decide
  unfold units
  simp only
  by_cases hzero : rank / binade = 0
  · have hrank : rank < 2 ^ 52 := (Nat.div_eq_zero_iff_lt hbinade).1 hzero
    rw [if_pos hzero]
    exact Nat.lt_of_lt_of_le hrank (Nat.pow_le_pow_right (Nat.succ_pos 1) (Nat.le_add_right 52 scale))
  · have hmod : rank % binade + binade < 2 ^ 53 :=
      Nat.add_lt_add_right (Nat.mod_lt rank hbinade) binade
    rw [if_neg hzero, Nat.shiftLeft_eq]
    obtain ⟨s, hs⟩ := Nat.exists_eq_succ_of_ne_zero hzero
    rw [hs] at h ⊢
    calc (rank % binade + binade) * 2 ^ s
        < 2 ^ 53 * 2 ^ s := Nat.mul_lt_mul_of_pos_right hmod (by positivity)
      _ = 2 ^ (53 + s) := (Nat.pow_add 2 53 s).symm
      _ ≤ 2 ^ (52 + scale) := Nat.pow_le_pow_right (by decide) (by omega)

theorem units_lt_of_le_nearestRank {rank num den k : ℕ} (hrank : rank ≤ nearestRank num den)
    (h : num * unitsPerOne / den < unitsPerOne * 2 ^ k) :
    units rank < unitsPerOne * 2 ^ (k + 1) := by
  rw [unitsPerOne_mul 52 (k + 1021 + 2) (k + 1) (by omega)]
  apply units_lt
  apply Nat.div_le_of_le_mul
  rw [Nat.mul_comm]
  exact Nat.le_trans hrank (nearestRank_le h)

theorem units_pos {rank : ℕ} (h : rank ≠ 0) : 0 < units rank := by
  unfold units
  simp only
  split
  · exact Nat.pos_of_ne_zero h
  · rw [Nat.shiftLeft_eq]
    exact Nat.mul_pos (Nat.add_pos_right _ (by decide)) (by positivity)

/-! ## Finite results -/

/-- Whether a number is finite and its magnitude below a power of two. -/
def IsBelow (k : ℕ) (x : Binary64) : Prop :=
  ∃ negative rank, x = finite negative rank ∧ units rank.val < unitsPerOne * 2 ^ k

theorem IsBelow.isFinite {k : ℕ} {x : Binary64} (h : IsBelow k x) : x.isFinite = true := by
  obtain ⟨negative, rank, rfl, -⟩ := h
  rfl

theorem isBelow_ofRatio (negative : Bool) {num den k : ℕ} (hk : k < 1024)
    (h : num * unitsPerOne / den < unitsPerOne * 2 ^ k) :
    IsBelow (k + 1) (ofRatio negative num den) := by
  have hfinite : nearestRank num den < finiteRanks := by
    apply Nat.lt_of_le_of_lt (nearestRank_le h)
    unfold binade finiteRanks
    omega
  refine ⟨negative, ⟨nearestRank num den, hfinite⟩, ?_, units_lt_of_le_nearestRank (Nat.le_refl _) h⟩
  rw [ofRatio, ofRank, dif_pos hfinite]

theorem units_div_one_lt {n k : ℕ} (h : n < 2 ^ k) :
    n * unitsPerOne / 1 < unitsPerOne * 2 ^ k := by
  rw [Nat.div_one, Nat.mul_comm]
  exact Nat.mul_lt_mul_of_pos_left h unitsPerOne_pos

theorem isBelow_ofNat {n k : ℕ} (hk : k < 1024) (h : n < 2 ^ k) : IsBelow (k + 1) (ofNat n) :=
  isBelow_ofRatio false hk (units_div_one_lt h)

theorem isBelow_mul {i j : ℕ} {x y : Binary64} (hx : IsBelow i x) (hy : IsBelow j y)
    (h : i + j < 1024) : IsBelow (i + j + 1) (x * y) := by
  obtain ⟨_, a, rfl, ha⟩ := hx
  obtain ⟨_, b, rfl, hb⟩ := hy
  apply isBelow_ofRatio _ h
  rw [Nat.mul_div_mul_right _ _ unitsPerOne_pos]
  apply Nat.div_lt_of_lt_mul
  calc units a.val * units b.val
      < unitsPerOne * 2 ^ i * (unitsPerOne * 2 ^ j) := Nat.mul_lt_mul_of_lt_of_lt ha hb
    _ = unitsPerOne * (unitsPerOne * 2 ^ (i + j)) := by
      rw [Nat.pow_add]
      ring

/-- Whether a number is finite and its magnitude not above the one nearest to a natural number. -/
def IsAtMost (n : ℕ) : Binary64 → Prop
  | finite _ rank => rank.val ≤ nearestRank n 1
  | _ => False

instance (n : ℕ) : DecidablePred (IsAtMost n)
  | finite _ rank => inferInstanceAs (Decidable (rank.val ≤ nearestRank n 1))
  | infinite _ => inferInstanceAs (Decidable False)
  | nan => inferInstanceAs (Decidable False)

/-! ## Shortest decimals -/

namespace Decimal

/-- The exponent of the first digit of a decimal. -/
def first (d : Decimal) : ℤ := d.exponent + (Nat.toDigits 10 d.coefficient).length - 1

/-- Whether a decimal is not zero and below a power of ten. -/
def IsWithin (m : ℤ) (d : Decimal) : Prop :=
  0 < d.coefficient ∧ ∃ k : ℕ, d.coefficient < 10 ^ k ∧ d.exponent + k ≤ m

theorem IsWithin.first_lt {m : ℤ} {d : Decimal} (h : d.IsWithin m) : d.first < m := by
  obtain ⟨hpos, k, hk, hm⟩ := h
  have hkpos : 0 < k := by
    rcases k with _ | k
    · omega
    · exact Nat.succ_pos k
  have hlength := (Nat.length_toDigits_le_iff (b := 10) (by decide) hkpos).2 hk
  unfold first
  omega

theorem IsWithin.reduced {m : ℤ} {d : Decimal} (h : d.IsWithin m) : d.reduced.IsWithin m := by
  fun_induction Decimal.reduced d with
  | case1 d hd ih =>
    obtain ⟨-, k, hk, hm⟩ := h
    apply ih
    rcases k with _ | k
    · omega
    · refine ⟨show 0 < d.coefficient / 10 by omega, k, ?_, ?_⟩
      · rw [Nat.pow_succ, Nat.mul_comm] at hk
        exact Nat.div_lt_of_lt_mul hk
      · show d.exponent + 1 + k ≤ m
        omega
  | case2 d hd => exact h

end Decimal

variable {rank n : ℕ}

theorem leadingExponent_lt (h : units rank < 10 ^ n * unitsPerOne) : leadingExponent rank < n := by
  have hlength (k : ℕ) (hk : 0 < k) :
      (Nat.toDigits 10 (units rank * Nat.pow 10 k / unitsPerOne)).length ≤ n + k := by
    refine (Nat.length_toDigits_le_iff (b := 10) (by decide) (by omega)).2 ?_
    apply Nat.div_lt_of_lt_mul
    rw [Nat.pow_add, ← Nat.mul_assoc, Nat.mul_comm unitsPerOne]
    exact Nat.mul_lt_mul_of_pos_right h (Nat.pow_pos (by decide))
  unfold leadingExponent
  -- Any power of ten would do, and this one is too large to be evaluated.
  generalize hk : 324 = k
  have hfirst := hlength k (by omega)
  omega

theorem nearestRank_zero (den : ℕ) : nearestRank 0 den = 0 := by
  simp [nearestRank, roundDiv, Nat.log2_zero]

theorem div_lt_pow {exponent : ℤ} (h : units rank < 10 ^ n * unitsPerOne) (hexponent : exponent ≤ n) :
    units rank * 10 ^ (-exponent).toNat / (unitsPerOne * 10 ^ exponent.toNat) <
      10 ^ (n - exponent).toNat := by
  apply Nat.div_lt_of_lt_mul
  have hsplit : exponent.toNat + (n - exponent).toNat = n + (-exponent).toNat := by omega
  calc units rank * 10 ^ (-exponent).toNat
      < 10 ^ n * unitsPerOne * 10 ^ (-exponent).toNat :=
        Nat.mul_lt_mul_of_pos_right h (by positivity)
    _ = unitsPerOne * (10 ^ n * 10 ^ (-exponent).toNat) := by ring
    _ = unitsPerOne * 10 ^ exponent.toNat * 10 ^ (n - exponent).toNat := by
      rw [← Nat.pow_add, ← hsplit, Nat.pow_add, Nat.mul_assoc]

theorem rank_zero (exponent : ℤ) : (⟨0, exponent⟩ : Decimal).rank = 0 := by
  rw [Decimal.rank, Decimal.num, Nat.zero_mul, nearestRank_zero]

theorem coefficient_of_onGrid? {exponent : ℤ} {d : Decimal} (hrank : rank ≠ 0)
    (hd : onGrid? rank exponent = some d) :
    d.exponent = exponent ∧ 0 < d.coefficient ∧
      d.coefficient ≤ units rank * Nat.pow 10 (-exponent).toNat /
        (unitsPerOne * Nat.pow 10 exponent.toNat) + 1 := by
  have hlow := div_le_roundDiv (units rank * Nat.pow 10 (-exponent).toNat)
    (unitsPerOne * Nat.pow 10 exponent.toNat)
  have hhigh := roundDiv_le (units rank * Nat.pow 10 (-exponent).toNat)
    (unitsPerOne * Nat.pow 10 exponent.toNat)
  unfold onGrid? at hd
  simp only at hd
  generalize roundDiv (units rank * Nat.pow 10 (-exponent).toNat)
    (unitsPerOne * Nat.pow 10 exponent.toNat) = nearer at hlow hhigh hd
  generalize units rank * Nat.pow 10 (-exponent).toNat /
    (unitsPerOne * Nat.pow 10 exponent.toNat) = q at hlow hhigh hd ⊢
  split at hd
  · next hbelow =>
    -- A decimal that reads back as a magnitude other than zero is not zero.
    have hq : 0 < q := by
      apply Nat.pos_of_ne_zero
      rintro rfl
      exact hrank (hbelow.symm.trans (rank_zero exponent))
    rw [Option.some.injEq] at hd
    split at hd
    · subst hd
      exact ⟨rfl, Nat.lt_of_lt_of_le hq hlow, hhigh⟩
    · subst hd
      exact ⟨rfl, hq, Nat.le_succ q⟩
  · split at hd
    · cases hd
      exact ⟨rfl, Nat.succ_pos q, Nat.le_refl _⟩
    · cases hd

theorem isWithin_onGrid? {exponent : ℤ} {d : Decimal} (hrank : rank ≠ 0)
    (h : units rank < 10 ^ n * unitsPerOne) (hexponent : exponent ≤ n)
    (hd : onGrid? rank exponent = some d) : d.IsWithin (n + 1) := by
  obtain ⟨rfl, hpos, hle⟩ := coefficient_of_onGrid? hrank hd
  refine ⟨hpos, (n - d.exponent).toNat + 1, ?_, by omega⟩
  calc d.coefficient ≤ 10 ^ (n - d.exponent).toNat := Nat.le_trans hle (div_lt_pow h hexponent)
    _ < 10 ^ ((n - d.exponent).toNat + 1) := Nat.pow_lt_pow_succ (by decide)

/-- **The shortest decimal of a magnitude** is not zero, and it is below a power of ten if the
magnitude is below the power of ten before it. -/
theorem isWithin_shortest (hrank : rank ≠ 0) (h : units rank < 10 ^ n * unitsPerOne) :
    (shortest rank).IsWithin (n + 1) := by
  unfold shortest
  simp only
  apply Decimal.IsWithin.reduced
  cases hfound : (List.range 17).findSome? fun more =>
      onGrid? rank (leadingExponent rank - (more : ℕ)) with
  | none =>
    refine ⟨units_pos hrank, n + 1074, ?_, by simp only [Option.getD_none]; omega⟩
    apply Nat.lt_of_lt_of_le h
    have hunits (k : ℕ) : 2 ^ k ≤ 10 ^ k := Nat.pow_le_pow_left (by decide) k
    rw [pow_add, unitsPerOne_eq]
    exact Nat.mul_le_mul_left _ (hunits 1074)
  | some d =>
    obtain ⟨more, -, hd⟩ := List.exists_of_findSome?_eq_some hfound
    have := leadingExponent_lt h
    exact isWithin_onGrid? hrank h (by omega) hd

theorem coefficient_shortest_ne_zero (hrank : rank ≠ 0) : (shortest rank).coefficient ≠ 0 := by
  have hwithin : units rank < 10 ^ units rank * unitsPerOne :=
    Nat.lt_of_lt_of_le (Nat.lt_pow_self (by decide)) (Nat.le_mul_of_pos_right _ unitsPerOne_pos)
  exact (isWithin_shortest hrank hwithin).1.ne'

end HotFrames.Binary64

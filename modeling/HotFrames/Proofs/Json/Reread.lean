import HotFrames.Proofs.Binary64.Arithmetic
import HotFrames.Proofs.Json.Decimal

/-!
# Doubles read back

A double that is read from a decimal is computed from two rounded numbers, the coefficient and the
power of ten (`Decimal.computed`), and so it may be another one than the nearest.  It is at most two
ranks away, at most one if the power of ten is a double, and the nearest one if the coefficient is a
double as well (`Decimal.IsModerate.rankOf_computed`).  Since a double is the nearest one to the
decimal that is written for it, it comes back as one that is as near (`comesBackAs_reread`).
-/

namespace HotFrames.Json

theorem scaled_of_scale? {n : ℕ} {power : ℤ} {x : Binary64}
    (h : scale? (.ofNat n) power = some x) : scaled false n power = .ok (.real x) := by
  rw [scaled, h]
  rfl

theorem map_real (x : Binary64) :
    (Except.ok (Number.real x) : Except Error Number).map Number.toBinary64 = .ok x := rfl

end HotFrames.Json

namespace HotFrames.Binary64

namespace Decimal

/-- The number that a decimal is computed as, before it is rounded. -/
def computed (d : Decimal) : ℚ :=
  if 0 ≤ d.exponent then rounded d.coefficient * rounded (10 ^ d.exponent.natAbs)
  else rounded d.coefficient / rounded (10 ^ d.exponent.natAbs)

theorem value_eq_ite (d : Decimal) :
    d.value = if 0 ≤ d.exponent then (d.coefficient : ℚ) * 10 ^ d.exponent.natAbs
      else (d.coefficient : ℚ) / 10 ^ d.exponent.natAbs := by
  unfold value
  split
  · next h =>
    obtain ⟨n, hn⟩ := Int.eq_ofNat_of_zero_le h
    rw [hn, Int.natAbs_natCast, zpow_natCast]
  · next h =>
    obtain ⟨n, hn⟩ := Int.exists_eq_neg_ofNat (Int.le_of_lt (Int.not_le.1 h))
    rw [hn, Int.natAbs_neg, Int.natAbs_natCast, zpow_neg, zpow_natCast, div_eq_mul_inv]

/-- Whether a decimal is not zero and has neither many digits nor a large exponent. -/
structure IsModerate (d : Decimal) : Prop where
  pos : 0 < d.coefficient
  coefficient_le : d.coefficient ≤ 10 ^ 17
  natAbs_le : d.exponent.natAbs ≤ 97

namespace IsModerate

variable {d : Decimal} (h : d.IsModerate)
include h

theorem within_coefficient : Within 57 d.coefficient :=
  within_natCast h.pos (Nat.le_trans h.coefficient_le (by decide))

theorem within_pow : Within 388 (10 ^ d.exponent.natAbs : ℚ) := by
  have hten : Within 4 (10 : ℚ) := within_natCast (n := 10) (by decide) (by decide)
  exact (hten.pow _).mono (Nat.mul_le_mul_left 4 h.natAbs_le)

theorem within_computed : Within 445 d.computed := by
  have hcoefficient := rounded_within h.within_coefficient (by decide)
  have hpow := rounded_within h.within_pow (by decide)
  unfold computed
  split
  · exact hcoefficient.mul hpow
  · exact hcoefficient.div hpow

theorem isFinite_computed : (nearest d.computed).isFinite = true := by
  obtain ⟨rank, hrank, -⟩ := nearest_eq h.within_computed (by decide)
  rw [hrank]
  rfl

/-- **A moderate decimal is computed as a product or a quotient of rounded numbers.** -/
theorem scaled_eq :
    Json.scaled false d.coefficient d.exponent = .ok (.real (nearest d.computed)) := by
  have hpower : d.exponent.natAbs ≤ Json.maxPower := Nat.le_trans h.natAbs_le (by decide)
  have hten : Json.tenTo d.exponent.natAbs = nearest (10 ^ d.exponent.natAbs) := by
    rw [Json.tenTo, ofNat_eq_nearest, Nat.pow_eq, Nat.cast_pow, Nat.cast_ofNat]
  have hscale : Json.scale? (ofNat d.coefficient) d.exponent = some (nearest d.computed) := by
    rw [Json.scale?, if_pos hpower, hten, ofNat_eq_nearest]
    by_cases hnonneg : 0 ≤ d.exponent
    · have hproduct : nearest d.coefficient * nearest (10 ^ d.exponent.natAbs) =
          nearest d.computed := by
        rw [computed, if_pos hnonneg]
        exact nearest_mul h.within_coefficient (by decide) h.within_pow (by decide)
      rw [if_pos hnonneg, hproduct, if_pos h.isFinite_computed]
    · rw [if_neg hnonneg, computed, if_neg hnonneg,
        nearest_div h.within_coefficient (by decide) h.within_pow (by decide)]
  exact Json.scaled_of_scale? hscale

/-- **The number that is computed differs from that of the decimal by at most a part of `2 ^ 52`.** -/
theorem computed_error : 2 ^ 52 * |d.computed - d.value| ≤ d.value := by
  have hcoefficient := rounded_error h.within_coefficient (by decide)
  have hpow := rounded_error h.within_pow (by decide)
  rw [value_eq_ite, computed]
  split
  · exact mul_error hcoefficient hpow
  · exact div_error h.within_pow.pos hcoefficient hpow

/-- It differs by at most a part of `2 ^ 53 + 1` if the power of ten is a double. -/
theorem computed_error_of_le (hexponent : d.exponent.natAbs ≤ 22) :
    (2 ^ 53 + 1) * |d.computed - d.value| ≤ d.value := by
  have hcoefficient := rounded_error h.within_coefficient (by decide)
  have hpos := h.within_pow.pos
  rw [value_eq_ite, computed, rounded_pow_ten hexponent]
  split
  · rw [← sub_mul, abs_mul, abs_of_pos hpos, ← mul_assoc]
    exact mul_le_mul_of_nonneg_right hcoefficient hpos.le
  · rw [← sub_div, abs_div, abs_of_pos hpos, mul_div_assoc']
    exact div_le_div_of_nonneg_right hcoefficient hpos.le

end IsModerate

/-- It is the same if the coefficient is a double as well. -/
theorem computed_eq_value {d : Decimal} (hexponent : d.exponent.natAbs ≤ 22)
    (hcoefficient : d.coefficient ≤ 2 ^ 53) : d.computed = d.value := by
  rw [value_eq_ite, computed, rounded_pow_ten hexponent, rounded_natCast hcoefficient]

end Decimal

/-! ## Ranks -/

/-- Whether two ranks are at most some ranks apart. -/
def Near (n a b : ℕ) : Prop := a ≤ b + n ∧ b ≤ a + n

/-- **A moderate decimal is computed as a double at most two ranks from the nearest one**, at most one
if the power of ten is a double, and the nearest one if the coefficient is a double as well. -/
theorem Decimal.IsModerate.rankOf_computed {d : Decimal} (h : d.IsModerate) :
    Near 2 d.rank (rankOf d.computed) ∧
      (d.exponent.natAbs ≤ 22 → Near 1 d.rank (rankOf d.computed) ∧
        (d.coefficient ≤ 2 ^ 53 → d.rank = rankOf d.computed)) := by
  have hnonneg := h.within_computed.pos.le
  rw [d.rank_eq]
  refine ⟨(rankOf_near middle_apart_two hnonneg ?_).symm, fun hexponent =>
    ⟨(rankOf_near middle_apart_one hnonneg ?_).symm, fun hcoefficient => ?_⟩⟩
  · exact_mod_cast h.computed_error
  · exact_mod_cast h.computed_error_of_le hexponent
  · rw [computed_eq_value hexponent hcoefficient]

/-! ## The decimal that is written -/

/-- The decimal of the text of a magnitude, as it is written. -/
def writtenDecimal (rank : ℕ) : Decimal :=
  if rank = 0 then ⟨0, -1⟩ else (shortest rank).asWritten

/-- A decimal of moderate size with few digits has no large exponent. -/
theorem Decimal.IsModerate.of_within {d : Decimal} (hpos : 0 < d.coefficient)
    (hle : d.coefficient ≤ 10 ^ 17) (h : Within 264 d.value) : d.IsModerate := by
  have hpow : (2 ^ 264 : ℚ) < 10 ^ (80 : ℤ) := by
    have hnat : 2 ^ 264 < 10 ^ 80 := by decide +kernel
    exact_mod_cast hnat
  have hten : (0 : ℚ) < 10 ^ d.exponent := zpow_pos (by norm_num) _
  have hone : (1 : ℚ) ≤ d.coefficient := by exact_mod_cast hpos
  have hhigh : d.exponent < 80 := by
    apply (zpow_lt_zpow_iff_right₀ (by norm_num : (1 : ℚ) < 10)).1
    calc (10 : ℚ) ^ d.exponent ≤ d.coefficient * 10 ^ d.exponent :=
          le_mul_of_one_le_left hten.le hone
      _ ≤ 2 ^ 264 := h.2
      _ < 10 ^ (80 : ℤ) := hpow
  have hlow : -80 < 17 + d.exponent := by
    apply (zpow_lt_zpow_iff_right₀ (by norm_num : (1 : ℚ) < 10)).1
    calc (10 : ℚ) ^ (-80 : ℤ) = (10 ^ (80 : ℤ))⁻¹ := zpow_neg _ _
      _ < (2 ^ 264)⁻¹ := inv_strictAnti₀ (by positivity) hpow
      _ ≤ d.coefficient * 10 ^ d.exponent := h.1
      _ ≤ 10 ^ (17 : ℤ) * 10 ^ d.exponent := by
        apply mul_le_mul_of_nonneg_right _ hten.le
        exact_mod_cast hle
      _ = 10 ^ (17 + d.exponent) := (zpow_add₀ (by norm_num) _ _).symm
  exact ⟨hpos, hle, by omega⟩

section Shortest

variable {rank : ℕ} (hrank : rank ≠ 0)
include hrank

theorem rank_asWritten_shortest : (shortest rank).asWritten.rank = rank := by
  rw [Decimal.rank_eq, Decimal.value_asWritten, ← Decimal.rank_eq, rank_shortest hrank]

variable (h : Within 263 (magnitude rank))
include h

theorem within_value_shortest : Within 264 (shortest rank).value := by
  apply within_of_rounded (Decimal.value_nonneg _) _ (by decide)
  rwa [rounded, ← Decimal.rank_eq, rank_shortest hrank]

theorem isModerate_shortest : (shortest rank).IsModerate :=
  .of_within (Nat.pos_of_ne_zero (coefficient_shortest_ne_zero hrank))
    (coefficient_shortest_le hrank) (within_value_shortest hrank h)

theorem isModerate_asWritten_shortest : (shortest rank).asWritten.IsModerate := by
  have hshortest := isModerate_shortest hrank h
  apply Decimal.IsModerate.of_within
  · exact Decimal.coefficient_asWritten_pos hshortest.pos.ne'
  · exact Decimal.coefficient_asWritten_le hshortest.coefficient_le
  · rw [Decimal.value_asWritten]
    exact within_value_shortest hrank h

end Shortest

/-- Whether a double may come back as another one: both are finite and not negative, and they are at
most two ranks apart.  They are at most one rank apart if the exponent of the text is at most 22, so
that its power of ten is a double, and they are the same if the coefficient is a double as well. -/
def ComesBackAs (x y : Binary64) : Prop :=
  ∃ a b : Fin finiteRanks, x = finite false a ∧ y = finite false b ∧ Near 2 a b ∧
    ((writtenDecimal a).exponent.natAbs ≤ 22 →
      Near 1 a b ∧ ((writtenDecimal a).coefficient ≤ 2 ^ 53 → x = y))

theorem comesBackAs_zero : ComesBackAs zero zero :=
  ⟨_, _, zero_eq, zero_eq, ⟨by decide, by decide⟩, fun _ => ⟨⟨by decide, by decide⟩, fun _ => rfl⟩⟩

end HotFrames.Binary64

namespace HotFrames.Json

open Binary64

theorem first_natAbs_le {d : Decimal} (hcoefficient : d.coefficient ≤ 10 ^ 17)
    (hexponent : d.exponent.natAbs ≤ maxPower) : d.first.natAbs ≤ exponentBound := by
  have hlength := (Nat.length_toDigits_le_iff (b := 10) (k := 18) (by decide) (by decide)).2
    (Nat.lt_of_le_of_lt hcoefficient (by decide))
  unfold Decimal.first exponentBound
  unfold maxPower at hexponent
  omega

/-- The text of a double is read as the decimal that is written. -/
theorem reread_eq_scaled {rank : Fin finiteRanks} (hrank : rank.val ≠ 0)
    (hexponent : (shortest rank).exponent.natAbs ≤ maxPower) :
    reread (finite false rank) =
      (scaled false (writtenDecimal rank).coefficient (writtenDecimal rank).exponent).map
        Number.toBinary64 := by
  have hparts : Parts.ofMagnitude rank =
      .ofDecimal (shortest rank) (coefficient_shortest_ne_zero hrank) := dif_neg hrank
  have hcoefficient := coefficient_shortest_le hrank
  rw [reread_finite, hparts,
    Parts.number_ofDecimal _ hcoefficient (first_natAbs_le hcoefficient hexponent), writtenDecimal,
    if_neg hrank]

theorem reread_of_within {rank : Fin finiteRanks} (h : Within 263 (magnitude rank)) :
    reread (finite false rank) = .ok (nearest (writtenDecimal rank).computed) := by
  have hrank := ne_zero_of_within h
  have hexponent : (shortest rank).exponent.natAbs ≤ maxPower :=
    Nat.le_trans (isModerate_shortest hrank h).natAbs_le (by decide)
  have hwritten : writtenDecimal rank = (shortest rank).asWritten := if_neg hrank
  rw [reread_eq_scaled hrank hexponent, hwritten, (isModerate_asWritten_shortest hrank h).scaled_eq,
    map_real]

/-- A decimal with a negative power of ten is read as a quotient. -/
theorem reread_of_shortest {rank : ℕ} (hlt : rank < finiteRanks) {d : Decimal} {y : Binary64}
    (hrank : rank ≠ 0) (hd : shortest rank = d) (hneg : d.exponent < 0)
    (hexponent : d.exponent.natAbs ≤ maxPower)
    (hy : ofNat d.coefficient / tenTo d.exponent.natAbs = y) :
    reread (finite false ⟨rank, hlt⟩) = .ok y := by
  have hwritten : writtenDecimal rank = d := by
    rw [writtenDecimal, if_neg hrank, hd]
    exact if_neg fun h => by omega
  have hscale : scale? (ofNat d.coefficient) d.exponent = some y := by
    rw [scale?, if_pos hexponent, if_neg (Int.not_le.2 hneg), hy]
  rw [reread_eq_scaled hrank (by rwa [hd]), hwritten, scaled_of_scale? hscale, map_real]

theorem reread_zero : reread zero = .ok zero := by
  have hscale : scale? (ofNat 0) (-1) = some zero := by
    have hdiv : ofNat 0 / tenTo (Int.natAbs (-1)) = zero := by decide +kernel
    rw [scale?, if_pos (by decide), if_neg (by decide), hdiv]
  have hnumber : (Parts.ofMagnitude 0).number false = scaled false 0 (-1) := rfl
  rw [zero_eq, reread_finite, hnumber, scaled, hscale, zero_eq]
  rfl

/-- **A double of moderate size comes back as one near it.** -/
theorem comesBackAs_reread {rank : Fin finiteRanks} (h : Within 263 (magnitude rank)) :
    ∃ y, reread (finite false rank) = .ok y ∧ ComesBackAs (finite false rank) y := by
  have hrank := ne_zero_of_within h
  have hmoderate := isModerate_asWritten_shortest hrank h
  have hwritten : writtenDecimal rank = (shortest rank).asWritten := if_neg hrank
  refine ⟨_, reread_of_within h, ?_⟩
  rw [hwritten]
  obtain ⟨b, hb, hval⟩ := nearest_eq hmoderate.within_computed (by decide)
  obtain ⟨htwo, hone⟩ := hmoderate.rankOf_computed
  rw [rank_asWritten_shortest hrank, ← hval] at htwo hone
  refine ⟨rank, b, rfl, hb, htwo, fun hexponent => ?_⟩
  rw [hwritten] at hexponent ⊢
  refine ⟨(hone hexponent).1, fun hcoefficient => ?_⟩
  rw [hb, Fin.ext ((hone hexponent).2 hcoefficient)]

end HotFrames.Json

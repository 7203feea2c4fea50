import HotFrames.Proofs.Binary64.Rounding

/-!
# Shortest decimals read back

The shortest decimal of a magnitude has at most seventeen digits, as many as are tried, and the
magnitude is the nearest one to it (`Binary64.rank_shortest`).  For with seventeen digits the nearer
one of the two decimals next to a magnitude is within the halves of the gaps next to it
(`Binary64.rank_nearer`).
-/

namespace HotFrames.Binary64

namespace Decimal

/-- The number that a decimal denotes. -/
def value (d : Decimal) : ℚ := d.coefficient * 10 ^ d.exponent

theorem den_pos (d : Decimal) : 0 < d.den := Nat.pow_pos (by decide)

theorem pow_toNat_div (e : ℤ) : (10 ^ e.toNat / 10 ^ (-e).toNat : ℚ) = 10 ^ e := by
  rcases Int.le_total 0 e with he | he
  · obtain ⟨n, rfl⟩ := Int.eq_ofNat_of_zero_le he
    simp
  · obtain ⟨n, hn⟩ := Int.exists_eq_neg_ofNat he
    subst hn
    simp

theorem num_div_den (d : Decimal) : (d.num / d.den : ℚ) = d.value := by
  unfold num den value
  rw [← pow_toNat_div]
  push_cast [Nat.pow_eq]
  ring

theorem value_nonneg (d : Decimal) : 0 ≤ d.value :=
  mul_nonneg (Nat.cast_nonneg _) (zpow_nonneg (by norm_num) _)

theorem rank_eq (d : Decimal) : d.rank = rankOf d.value := by
  rw [← num_div_den]
  exact nearestRank_eq_rankOf d.num d.den_pos

theorem value_reduced (d : Decimal) : d.reduced.value = d.value := by
  fun_induction Decimal.reduced d with
  | case1 d hd ih =>
    have hcoefficient : ((d.coefficient / 10 : ℕ) * 10 : ℚ) = d.coefficient := by
      exact_mod_cast Nat.div_mul_cancel (Nat.dvd_of_mod_eq_zero hd.2)
    rw [ih, value, value, zpow_add_one₀ (by norm_num), ← hcoefficient]
    ring
  | case2 d hd => rfl

theorem coefficient_reduced_le (d : Decimal) : d.reduced.coefficient ≤ d.coefficient := by
  fun_induction Decimal.reduced d with
  | case1 d hd ih => exact Nat.le_trans ih (Nat.div_le_self _ _)
  | case2 d hd => exact Nat.le_refl _

end Decimal

variable {rank : ℕ}

/-- A decimal that differs from a magnitude by less than a part of `2 ^ 54` reads back as it. -/
theorem Decimal.rank_eq_of_near {d : Decimal}
    (h : 2 ^ 54 * |d.value * unitsPerOne - units rank| < units rank) : d.rank = rank := by
  have hlow : 2 ^ 54 * (units rank - d.value * unitsPerOne) < units rank :=
    lt_of_le_of_lt (mul_le_mul_of_nonneg_left (abs_sub_comm (units rank : ℚ) _ ▸ le_abs_self _)
      (by norm_num)) h
  have hhigh : 2 ^ 54 * (d.value * unitsPerOne - units rank) < units rank :=
    lt_of_le_of_lt (mul_le_mul_of_nonneg_left (le_abs_self _) (by norm_num)) h
  rw [Decimal.rank_eq]
  apply (roundsTo_rankOf d.value_nonneg).eq_of_lt
  · rintro k rfl
    have hbits : (units k + gap k : ℚ) ≤ 2 ^ 53 * gap k := by exact_mod_cast units_add_gap_le k
    rw [units_succ] at hlow
    rw [middle_eq]
    push_cast at hlow ⊢
    linarith
  · have hbits : (units rank + gap rank : ℚ) ≤ 2 ^ 53 * gap rank := by
      exact_mod_cast units_add_gap_le rank
    have hpos : (0 : ℚ) < gap rank := Nat.cast_pos.2 (gap_pos rank)
    rw [middle_eq]
    push_cast
    linarith

/-! ## The grid of seventeen digits -/

/-- The nearer one of the decimals next to a magnitude. -/
def nearer (rank : ℕ) (exponent : ℤ) : Decimal :=
  ⟨roundDiv (units rank * Nat.pow 10 (-exponent).toNat) (unitsPerOne * Nat.pow 10 exponent.toNat),
    exponent⟩

/-- Only decimals that read back are found, and one is found if the nearer one reads back, since that
is one of the two that are tried. -/
theorem onGrid?_spec (rank : ℕ) (exponent : ℤ) :
    (∀ d, onGrid? rank exponent = some d → d.rank = rank) ∧
      ((nearer rank exponent).rank = rank → onGrid? rank exponent ≠ none) := by
  have hlow := div_le_roundDiv (units rank * Nat.pow 10 (-exponent).toNat)
    (unitsPerOne * Nat.pow 10 exponent.toNat)
  have hhigh := roundDiv_le (units rank * Nat.pow 10 (-exponent).toNat)
    (unitsPerOne * Nat.pow 10 exponent.toNat)
  unfold onGrid? nearer
  simp only
  generalize roundDiv (units rank * Nat.pow 10 (-exponent).toNat)
    (unitsPerOne * Nat.pow 10 exponent.toNat) = nearest at hlow hhigh ⊢
  generalize units rank * Nat.pow 10 (-exponent).toNat /
    (unitsPerOne * Nat.pow 10 exponent.toNat) = q at hlow hhigh ⊢
  have htried : nearest = q ∨ nearest = q + 1 := by omega
  by_cases hbelow : (⟨q, exponent⟩ : Decimal).rank = rank
  · rw [if_pos hbelow]
    refine ⟨?_, fun _ => nofun⟩
    rintro _ ⟨⟩
    split
    · next habove =>
      rcases htried with rfl | rfl
      · exact hbelow
      · exact habove
    · exact hbelow
  · rw [if_neg hbelow]
    split
    · next habove =>
      refine ⟨?_, fun _ => nofun⟩
      rintro _ ⟨⟩
      exact habove
    · next habove =>
      refine ⟨nofun, fun hnearest => absurd hnearest ?_⟩
      rcases htried with rfl | rfl
      · exact hbelow
      · exact habove

/-- The nearer decimal is half a step of the grid away at most. -/
theorem abs_nearer_sub_le (rank : ℕ) (exponent : ℤ) :
    2 * |(nearer rank exponent).value * unitsPerOne - units rank| ≤ 10 ^ exponent * unitsPerOne := by
  have hpow (n : ℕ) : (0 : ℚ) < 10 ^ n := pow_pos (by norm_num) n
  have hden : 0 < unitsPerOne * Nat.pow 10 exponent.toNat :=
    Nat.mul_pos unitsPerOne_pos (Nat.pow_pos (by decide))
  obtain ⟨hle, hge⟩ := roundDiv_spec (units rank * Nat.pow 10 (-exponent).toNat) hden
  have hvalue : (nearer rank exponent).value = roundDiv (units rank * Nat.pow 10 (-exponent).toNat)
    (unitsPerOne * Nat.pow 10 exponent.toNat) * 10 ^ exponent := rfl
  rw [hvalue, ← Decimal.pow_toNat_div]
  generalize roundDiv (units rank * Nat.pow 10 (-exponent).toNat)
    (unitsPerOne * Nat.pow 10 exponent.toNat) = k at hle hge ⊢
  have hle' : (2 * (units rank * 10 ^ (-exponent).toNat) : ℚ) ≤
      2 * (k * (unitsPerOne * 10 ^ exponent.toNat)) + unitsPerOne * 10 ^ exponent.toNat := by
    exact_mod_cast hle
  have hge' : (2 * (k * (unitsPerOne * 10 ^ exponent.toNat)) : ℚ) ≤
      2 * (units rank * 10 ^ (-exponent).toNat) + unitsPerOne * 10 ^ exponent.toNat := by
    exact_mod_cast hge
  generalize (10 ^ exponent.toNat : ℚ) = a at hle' hge' ⊢
  have hb := hpow (-exponent).toNat
  generalize (10 ^ (-exponent).toNat : ℚ) = b at hle' hge' hb ⊢
  have hsub : k * (a / b) * unitsPerOne - units rank =
      (k * (unitsPerOne * a) - units rank * b) / b := by
    field_simp
  rw [hsub, abs_div, abs_of_pos hb, mul_div_assoc', div_mul_eq_mul_div]
  apply div_le_div_of_nonneg_right _ hb.le
  rcases abs_cases (k * (unitsPerOne * a) - units rank * b : ℚ) with ⟨habs, -⟩ | ⟨habs, -⟩ <;>
  · rw [habs]
    linarith

theorem exists_length_toDigits {n : ℕ} (hn : 0 < n) :
    ∃ k, (Nat.toDigits 10 n).length = k + 1 ∧ 10 ^ k ≤ n ∧ n < 10 ^ (k + 1) := by
  obtain ⟨k, hk⟩ := Nat.exists_eq_succ_of_ne_zero
    (List.length_pos_iff.2 (Nat.toDigits_ne_nil (n := n) (b := 10))).ne'
  refine ⟨k, hk, ?_, (Nat.length_toDigits_le_iff (by decide) (Nat.succ_pos k)).1 hk.le⟩
  rcases Nat.eq_zero_or_pos k with rfl | hpos
  · exact hn
  · by_contra hlt
    have := (Nat.length_toDigits_le_iff (b := 10) (by decide) hpos).2 (Nat.lt_of_not_le hlt)
    omega

/-- The exponent of the first digit of a magnitude is that of the power of ten below it. -/
theorem units_bounds (hrank : rank ≠ 0) :
    10 ^ leadingExponent rank * unitsPerOne ≤ (units rank : ℚ) ∧
      (units rank : ℚ) < 10 ^ (leadingExponent rank + 1) * unitsPerOne := by
  -- The product with `10 ^ 324` has a digit before the point.
  have hfirst : 0 < units rank * Nat.pow 10 324 / unitsPerOne := by
    apply Nat.div_pos _ unitsPerOne_pos
    have hle : unitsPerOne ≤ Nat.pow 10 324 := by decide +kernel
    exact Nat.le_trans hle (Nat.le_mul_of_pos_left _ (units_pos hrank))
  obtain ⟨k, hlength, hlow, hhigh⟩ := exists_length_toDigits hfirst
  have hleading : leadingExponent rank = k - (324 : ℕ) := by
    rw [leadingExponent, hlength]
    push_cast
    ring
  rw [Nat.le_div_iff_mul_le unitsPerOne_pos] at hlow
  rw [Nat.div_lt_iff_lt_mul unitsPerOne_pos] at hhigh
  generalize 324 = m at hlow hhigh hleading
  have hlow' : (10 ^ k * unitsPerOne : ℚ) ≤ units rank * 10 ^ m := by exact_mod_cast hlow
  have hhigh' : (units rank * 10 ^ m : ℚ) < 10 ^ (k + 1) * unitsPerOne := by exact_mod_cast hhigh
  have hten : (0 : ℚ) < 10 ^ m := pow_pos (by norm_num) m
  rw [hleading, zpow_add_one₀ (by norm_num), zpow_sub₀ (by norm_num), zpow_natCast, zpow_natCast,
    div_mul_eq_mul_div, div_mul_eq_mul_div, div_mul_eq_mul_div, ← pow_succ]
  exact ⟨(div_le_iff₀ hten).2 hlow', (lt_div_iff₀ hten).2 hhigh'⟩

/-- **With seventeen digits the nearer decimal reads back.** -/
theorem rank_nearer (hrank : rank ≠ 0) :
    (nearer rank (leadingExponent rank - 16)).rank = rank := by
  apply Decimal.rank_eq_of_near
  have hnear := abs_nearer_sub_le rank (leadingExponent rank - 16)
  have hlow := (units_bounds hrank).1
  have hpos : (0 : ℚ) < units rank := Nat.cast_pos.2 (units_pos hrank)
  rw [zpow_sub₀ (by norm_num)] at hnear
  have hten : (10 ^ (16 : ℤ) : ℚ) = 10000000000000000 := by norm_num
  rw [hten] at hnear
  linarith

/-- One of the grids of up to seventeen digits has a decimal that reads back. -/
theorem exists_onGrid?_shortest (hrank : rank ≠ 0) :
    ∃ d more, more < 17 ∧ onGrid? rank (leadingExponent rank - (more : ℕ)) = some d ∧
      shortest rank = d.reduced := by
  have hsome : ((List.range 17).findSome? fun more =>
      onGrid? rank (leadingExponent rank - (more : ℕ))).isSome := by
    rw [List.findSome?_isSome_iff]
    exact ⟨16, by decide, Option.isSome_iff_ne_none.2 ((onGrid?_spec _ _).2 (rank_nearer hrank))⟩
  obtain ⟨d, hd⟩ := Option.isSome_iff_exists.1 hsome
  obtain ⟨more, hmore, hgrid⟩ := List.exists_of_findSome?_eq_some hd
  refine ⟨d, more, List.mem_range.1 hmore, hgrid, ?_⟩
  rw [shortest]
  simp only [hd, Option.getD_some]

/-- **The shortest decimal of a magnitude reads back as it.** -/
theorem rank_shortest (hrank : rank ≠ 0) : (shortest rank).rank = rank := by
  obtain ⟨d, more, -, hgrid, hshortest⟩ := exists_onGrid?_shortest hrank
  rw [hshortest, Decimal.rank_eq, Decimal.value_reduced, ← Decimal.rank_eq]
  exact (onGrid?_spec _ _).1 d hgrid

/-- The shortest decimal of a magnitude has at most seventeen digits, or eighteen of which all but the
first are zeros. -/
theorem coefficient_shortest_le (hrank : rank ≠ 0) : (shortest rank).coefficient ≤ 10 ^ 17 := by
  obtain ⟨d, more, hmore, hgrid, hshortest⟩ := exists_onGrid?_shortest hrank
  rw [hshortest]
  apply Nat.le_trans (Decimal.coefficient_reduced_le d)
  obtain ⟨-, -, hcoefficient⟩ := coefficient_of_onGrid? hrank hgrid
  apply Nat.le_trans hcoefficient
  generalize hexponent : leadingExponent rank - (more : ℤ) = e
  apply Nat.div_lt_of_lt_mul
  have hU : (0 : ℚ) < unitsPerOne := Nat.cast_pos.2 unitsPerOne_pos
  have hb : (0 : ℚ) < 10 ^ (-e).toNat := pow_pos (by norm_num) _
  have hpow : (10 ^ (leadingExponent rank + 1) : ℚ) ≤ 10 ^ e * 10 ^ (17 : ℕ) := by
    rw [← zpow_natCast, ← zpow_add₀ (by norm_num)]
    exact zpow_le_zpow_right₀ (by norm_num) (by omega)
  have hunits : (units rank * 10 ^ (-e).toNat : ℚ) <
      unitsPerOne * 10 ^ e.toNat * 10 ^ 17 := by
    calc (units rank * 10 ^ (-e).toNat : ℚ)
        < 10 ^ (leadingExponent rank + 1) * unitsPerOne * 10 ^ (-e).toNat :=
          mul_lt_mul_of_pos_right (units_bounds hrank).2 hb
      _ ≤ 10 ^ e * 10 ^ 17 * unitsPerOne * 10 ^ (-e).toNat :=
          mul_le_mul_of_nonneg_right (mul_le_mul_of_nonneg_right hpow hU.le) hb.le
      _ = unitsPerOne * 10 ^ e.toNat * 10 ^ 17 := by
        rw [← Decimal.pow_toNat_div]
        field_simp
  exact_mod_cast hunits

/-- The decimal that is found on the first grid that has one, if its last digit is not zero. -/
theorem shortest_eq_of_findSome? {d : Decimal}
    (hfound : (List.range 17).findSome? (fun more =>
      onGrid? rank (leadingExponent rank - (more : ℕ))) = some d) (hlast : d.coefficient % 10 ≠ 0) :
    shortest rank = d := by
  unfold shortest
  simp only
  rw [hfound, Option.getD_some, Decimal.reduced, dif_neg fun h => hlast h.2]

end HotFrames.Binary64

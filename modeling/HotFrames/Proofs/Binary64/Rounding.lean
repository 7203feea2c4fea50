import HotFrames.Proofs.Binary64

/-!
# Nearest doubles

The magnitude that a quotient is rounded to is nearest to it (`Binary64.roundsTo_nearestRank`): the
quotient is not beyond the middles of the gaps next to the magnitude.  From this come the order of
rounded quotients (`RoundsTo.le_of_units_le`, `RoundsTo.le_of_le_units`), the error of a rounding as
a part of the quotient (`RoundsTo.error_le`), and how many ranks apart two quotients can be rounded
that differ by a given part of one of them (`RoundsTo.rank_near`).  The rank depends on the quotient
only, not on how it is written as a fraction (`nearestRank_eq_rankOf`).
-/

namespace HotFrames.Binary64

/-! ## Gaps between magnitudes -/

theorem binade_pos : 0 < binade := by decide

theorem binade_eq : binade = 2 ^ 52 := rfl

/-- The units from a magnitude to the next one. -/
def gap (rank : ℕ) : ℕ := 2 ^ (rank / binade - 1)

/-- Every rank is a scale in binades and a significand, which is below that of the next binade and,
in a scale other than zero, not below that of its own. -/
theorem exists_significand (rank : ℕ) :
    ∃ s k, rank = s * binade + k ∧ k < 2 * binade ∧ (s = 0 ∨ binade ≤ k) := by
  have hmod : rank % binade < binade := Nat.mod_lt rank binade_pos
  have hdiv := Nat.div_add_mod rank binade
  rcases Nat.eq_zero_or_pos (rank / binade) with hzero | hpos
  · rw [hzero] at hdiv
    exact ⟨0, rank, by omega, by omega, .inl rfl⟩
  · obtain ⟨s, hs⟩ := Nat.exists_eq_succ_of_ne_zero hpos.ne'
    rw [hs, Nat.succ_eq_add_one, Nat.mul_add, Nat.mul_comm] at hdiv
    exact ⟨s, binade + rank % binade, by omega, by omega, .inr (by omega)⟩

section Significand

variable {s k : ℕ} (h : s = 0 ∨ binade ≤ k)
include h

theorem units_significand (hk : k ≤ 2 * binade) : units (s * binade + k) = k * 2 ^ s := by
  have hdiv : (s * binade + k) / binade = k / binade + s := by
    rw [Nat.add_comm, Nat.add_mul_div_right _ _ binade_pos]
  unfold units
  simp only
  rw [hdiv, Nat.mul_add_mod']
  by_cases hlow : k < binade
  · obtain rfl : s = 0 := h.resolve_right (Nat.not_le_of_lt hlow)
    rw [Nat.div_eq_of_lt hlow, if_pos rfl, Nat.zero_mul, Nat.zero_add, Nat.pow_zero, Nat.mul_one]
  · by_cases hhigh : k = 2 * binade
    · subst hhigh
      rw [Nat.mul_div_cancel _ binade_pos, Nat.mul_mod_left, if_neg (by omega), Nat.shiftLeft_eq,
        Nat.zero_add, (by omega : 2 + s - 1 = 1 + s), Nat.pow_add]
      ring
    · have hone : k / binade = 1 := Nat.div_eq_of_lt_le (by omega) (by omega)
      have hmod : k % binade + binade = k := by
        have := Nat.div_add_mod k binade
        rw [hone] at this
        omega
      rw [hone, hmod, if_neg (by omega), Nat.shiftLeft_eq, Nat.add_sub_cancel_left]

theorem pow_le_gap : 2 ^ s ≤ gap (s * binade + k) := by
  apply Nat.pow_le_pow_right (by decide)
  rw [Nat.add_comm, Nat.add_mul_div_right _ _ binade_pos]
  rcases h with rfl | h
  · exact Nat.zero_le _
  · have := Nat.div_pos h binade_pos
    omega

theorem gap_significand (hk : k < 2 * binade) : gap (s * binade + k) = 2 ^ s := by
  apply Nat.le_antisymm _ (pow_le_gap h)
  apply Nat.pow_le_pow_right (by decide)
  have := Nat.div_lt_of_lt_mul (Nat.mul_comm 2 binade ▸ hk)
  rw [Nat.add_comm, Nat.add_mul_div_right _ _ binade_pos]
  omega

end Significand

theorem units_succ (rank : ℕ) : units (rank + 1) = units rank + gap rank := by
  obtain ⟨s, k, rfl, hk, h⟩ := exists_significand rank
  have hnext : s = 0 ∨ binade ≤ k + 1 := h.imp_right Nat.le_succ_of_le
  rw [Nat.add_assoc, units_significand hnext hk, units_significand h hk.le, gap_significand h hk]
  ring

theorem gap_pos (rank : ℕ) : 0 < gap rank := Nat.pow_pos (by decide)

theorem units_strictMono : StrictMono units :=
  strictMono_nat_of_lt_succ fun rank => by
    rw [units_succ]
    exact Nat.lt_add_of_pos_right (gap_pos rank)

theorem units_zero : units 0 = 0 := rfl

/-- A magnitude has at most 53 bits above its gap, and so has the next one. -/
theorem units_add_gap_le (rank : ℕ) : units rank + gap rank ≤ 2 ^ 53 * gap rank := by
  obtain ⟨s, k, rfl, hk, h⟩ := exists_significand rank
  rw [units_significand h hk.le, gap_significand h hk, ← Nat.succ_mul]
  exact Nat.mul_le_mul_right _ hk

/-- From the second binade on a magnitude has all of its 53 bits above its gap. -/
theorem mul_gap_le_units {rank : ℕ} (hrank : binade ≤ rank) : 2 ^ 52 * gap rank ≤ units rank := by
  obtain ⟨s, k, rfl, hk, h⟩ := exists_significand rank
  rw [units_significand h hk.le, gap_significand h hk]
  apply Nat.mul_le_mul_right
  rcases h with rfl | h
  · rwa [Nat.zero_mul, Nat.zero_add] at hrank
  · exact h

/-- A gap is as large as the one before it, or twice as large at the end of a binade. -/
theorem gap_succ (rank : ℕ) :
    gap (rank + 1) = gap rank ∨
      gap (rank + 1) = 2 * gap rank ∧ units (rank + 1) = 2 ^ 53 * gap rank := by
  obtain ⟨s, k, rfl, hk, h⟩ := exists_significand rank
  have hnext : s = 0 ∨ binade ≤ k + 1 := h.imp_right Nat.le_succ_of_le
  rw [gap_significand h hk, Nat.add_assoc]
  rcases Nat.lt_or_eq_of_le (show k + 1 ≤ 2 * binade from hk) with hlt | heq
  · exact .inl (gap_significand hnext hlt)
  · refine .inr ⟨?_, ?_⟩
    · rw [heq, (by ring : s * binade + 2 * binade = (s + 1) * binade + binade),
        gap_significand (.inr (Nat.le_refl _)) (by decide), Nat.pow_succ, Nat.mul_comm]
    · rw [units_significand hnext hk, heq]
      rfl

theorem exists_units_eq_pow (n : ℕ) : ∃ rank, units rank = 2 ^ n := by
  rcases Nat.le_total n 52 with hn | hn
  · have hle : 2 ^ n ≤ 2 * binade :=
      Nat.le_trans (Nat.pow_le_pow_right (by decide) hn) (by decide)
    refine ⟨0 * binade + 2 ^ n, ?_⟩
    rw [units_significand (.inl rfl) hle, Nat.pow_zero, Nat.mul_one]
  · refine ⟨(n - 52) * binade + binade, ?_⟩
    rw [units_significand (.inr (Nat.le_refl _)) (by decide), binade_eq, ← Nat.pow_add]
    congr 1
    omega

/-! ## Middles of gaps -/

/-- Twice the middle of the gap above a magnitude. -/
def middle (rank : ℕ) : ℕ := units rank + units (rank + 1)

theorem middle_strictMono : StrictMono middle :=
  units_strictMono.add (units_strictMono.comp (fun _ _ h => Nat.succ_lt_succ h))

theorem middle_eq (rank : ℕ) : middle rank = 2 * units rank + gap rank := by
  rw [middle, units_succ]
  ring

/-- Neighbouring middles differ by more than a part of `2 ^ 53 + 1`. -/
theorem middle_apart_one (rank : ℕ) :
    middle (rank + 1) + (2 ^ 53 + 1) * middle rank < (2 ^ 53 + 1) * middle (rank + 1) := by
  have hle := units_add_gap_le rank
  have hpos := gap_pos rank
  rw [middle_eq, middle_eq, units_succ]
  rcases gap_succ rank with hgap | ⟨hgap, hunits⟩
  · rw [hgap]
    omega
  · rw [units_succ] at hunits
    rw [hgap]
    omega

/-- Middles two ranks apart differ by more than a part of `2 ^ 52`. -/
theorem middle_apart_two (rank : ℕ) :
    middle (rank + 2) + 2 ^ 52 * middle rank < 2 ^ 52 * middle (rank + 2) := by
  have hle := units_add_gap_le (rank + 2)
  have hpos := gap_pos rank
  have hunits : units (rank + 2) = units rank + gap rank + gap (rank + 1) := by
    rw [← units_succ, ← units_succ]
  have hlater : gap (rank + 2) = gap (rank + 1) ∨
      gap (rank + 2) = 2 * gap (rank + 1) ∧ units (rank + 2) = 2 ^ 53 * gap (rank + 1) :=
    gap_succ (rank + 1)
  rw [middle_eq, middle_eq]
  rcases gap_succ rank with hgap | ⟨hgap, hend⟩
  · rcases hlater with hlater | ⟨hlater, hend⟩ <;> omega
  · rw [units_succ] at hend
    rcases hlater with hlater | ⟨hlater, hend'⟩ <;> omega

/-! ## Rounding -/

theorem roundDiv_spec (num : ℕ) {den : ℕ} (hden : 0 < den) :
    2 * num ≤ 2 * (roundDiv num den * den) + den ∧ 2 * (roundDiv num den * den) ≤ 2 * num + den := by
  have hdiv := Nat.div_add_mod num den
  have hmod := Nat.mod_lt num hden
  unfold roundDiv
  simp only
  rw [Nat.mul_comm] at hdiv
  split_ifs
  · omega
  · rw [Nat.add_mul]
    omega
  · omega
  · rw [Nat.add_mul]
    omega

/-- Whether a magnitude is nearest to a quotient, in units: the quotient is not beyond the middles of
the gaps next to the magnitude. -/
structure RoundsTo (x : ℚ) (rank : ℕ) : Prop where
  le_middle : 2 * x ≤ middle rank
  middle_le : ∀ k, rank = k + 1 → middle k ≤ 2 * x

/-- The middles are compared in natural numbers. -/
theorem roundsTo_of_nat {num den rank : ℕ} (hden : 0 < den) (hle : 2 * num ≤ middle rank * den)
    (hge : ∀ k, rank = k + 1 → middle k * den ≤ 2 * num) : RoundsTo (num / den) rank where
  le_middle := by
    have hden' : (0 : ℚ) < den := Nat.cast_pos.2 hden
    rw [mul_div_assoc', div_le_iff₀ hden']
    exact_mod_cast hle
  middle_le k hk := by
    have hden' : (0 : ℚ) < den := Nat.cast_pos.2 hden
    rw [mul_div_assoc', le_div_iff₀ hden']
    exact_mod_cast hge k hk

/-- The shift of a quotient leaves 53 bits of it, unless it has fewer. -/
theorem shift_spec {q s : ℕ} (hs : Nat.log2 q - 52 = s) :
    (s = 0 ∨ binade ≤ q / 2 ^ s) ∧ q / 2 ^ s < 2 * binade := by
  have hpow : 0 < 2 ^ s := Nat.pow_pos (by decide)
  constructor
  · rcases Nat.eq_zero_or_pos s with hzero | hpos
    · exact .inl hzero
    · have hne : q ≠ 0 := by
        rintro rfl
        rw [Nat.log2_zero] at hs
        omega
      refine .inr ((Nat.le_div_iff_mul_le hpow).2 ?_)
      rw [binade_eq, ← Nat.pow_add, (by omega : 52 + s = Nat.log2 q)]
      exact Nat.log2_self_le hne
  · apply Nat.div_lt_of_lt_mul
    rw [Nat.mul_comm, (by decide : 2 * binade = 2 ^ 53), ← Nat.pow_add]
    exact Nat.lt_of_lt_of_le Nat.lt_log2_self (Nat.pow_le_pow_right (by decide) (by omega))

/-- The middle below a magnitude, unless that is the first one of its binade. -/
theorem middle_significand_pred {s k j : ℕ} (h : s = 0 ∨ binade < k) (hk : k ≤ 2 * binade)
    (hj : s * binade + k = j + 1) : middle j + 2 ^ s = 2 * (k * 2 ^ s) := by
  have hpos : 0 < k := by
    rcases h with rfl | hlt
    · omega
    · exact Nat.zero_lt_of_lt hlt
  obtain ⟨i, rfl⟩ := Nat.exists_eq_add_of_lt hpos
  have hprev : j = s * binade + (0 + i) := by omega
  have hunits : units j = (0 + i) * 2 ^ s := by
    rw [hprev]
    exact units_significand (h.imp_right Nat.le_of_lt_succ) (by omega)
  rw [middle, ← hj, hunits, units_significand (h.imp_right Nat.le_of_lt) hk]
  ring

/-- A significand that is nearest to a shifted quotient makes a nearest magnitude. -/
theorem roundsTo_significand {n den s k : ℕ} (hden : 0 < den) (hk : k ≤ 2 * binade)
    (hnormal : s = 0 ∨ binade ≤ k) (hfirst : s = 0 ∨ binade * (den * 2 ^ s) ≤ n)
    (hle : 2 * n ≤ 2 * (k * (den * 2 ^ s)) + den * 2 ^ s)
    (hge : 2 * (k * (den * 2 ^ s)) ≤ 2 * n + den * 2 ^ s) :
    RoundsTo (n / den) (s * binade + k) := by
  have hunits := units_significand hnormal hk
  apply roundsTo_of_nat hden
  · have hgap : 2 ^ s * den ≤ gap (s * binade + k) * den :=
      Nat.mul_le_mul_right den (pow_le_gap hnormal)
    rw [middle_eq, hunits]
    nlinarith
  · intro j hj
    by_cases hbelow : s = 0 ∨ binade < k
    · have hmiddle := congrArg (· * den) (middle_significand_pred hbelow hk hj)
      simp only [Nat.add_mul] at hmiddle
      nlinarith
    · -- Below the first magnitude of a binade the gap is smaller, but the quotient is not there.
      obtain ⟨hs0, hkle⟩ := not_or.1 hbelow
      have hlast := hfirst.resolve_left hs0
      have hmiddle : middle j ≤ 2 * (binade * 2 ^ s) := by
        have hlt : units j < units (j + 1) := units_strictMono (Nat.lt_succ_self j)
        rw [← (by omega : k = binade), ← hunits, hj, middle]
        omega
      nlinarith

/-- **The rank nearest to a quotient is that of a nearest magnitude.** -/
theorem roundsTo_nearestRank (num : ℕ) {den : ℕ} (hden : 0 < den) :
    RoundsTo (num * unitsPerOne / den) (nearestRank num den) := by
  rw [← Nat.cast_mul]
  unfold nearestRank
  simp only
  generalize num * unitsPerOne = n
  generalize hs : Nat.log2 (n / den) - 52 = s
  have hscaled : 0 < den * 2 ^ s := Nat.mul_pos hden (Nat.pow_pos (by decide))
  rw [Nat.shiftLeft_eq]
  have hlow := div_le_roundDiv n (den * 2 ^ s)
  have hhigh := roundDiv_le n (den * 2 ^ s)
  obtain ⟨hle, hge⟩ := roundDiv_spec n hscaled
  generalize roundDiv n (den * 2 ^ s) = k at hlow hhigh hle hge
  obtain ⟨hnormal, hbits⟩ := shift_spec hs
  rw [Nat.div_div_eq_div_mul] at hnormal hbits
  exact roundsTo_significand hden (Nat.le_trans hhigh hbits)
    (hnormal.imp_right fun h => Nat.le_trans h hlow)
    (hnormal.imp_right fun h => (Nat.le_div_iff_mul_le hscaled).1 h) hle hge

theorem units_binade : units binade = 2 ^ 52 := by decide

namespace RoundsTo

variable {x y : ℚ} {a b k : ℕ}

/-- A quotient strictly between the middles of the gaps next to a magnitude is rounded to it. -/
theorem eq_of_lt (h : RoundsTo x a) (hlow : ∀ k, b = k + 1 → middle k < 2 * x)
    (hhigh : 2 * x < middle b) : a = b := by
  rcases Nat.lt_trichotomy a b with hab | hab | hab
  · obtain ⟨k, rfl⟩ := Nat.exists_eq_add_of_lt hab
    have hmono : (middle a : ℚ) ≤ middle (a + k) :=
      Nat.cast_le.2 (middle_strictMono.monotone (Nat.le_add_right a k))
    exact absurd (h.le_middle.trans hmono) (not_le_of_gt (hlow _ rfl))
  · exact hab
  · obtain ⟨k, rfl⟩ := Nat.exists_eq_add_of_lt hab
    have hmono : (middle b : ℚ) ≤ middle (b + k) :=
      Nat.cast_le.2 (middle_strictMono.monotone (Nat.le_add_right b k))
    exact absurd (hmono.trans (h.middle_le _ rfl)) (not_le_of_gt hhigh)

theorem units_lt_middle (k : ℕ) : 2 * units k < middle k := by
  rw [middle_eq]
  exact Nat.lt_add_of_pos_right (gap_pos k)

theorem middle_lt_units (k : ℕ) : middle k < 2 * units (k + 1) := by
  rw [middle_eq, units_succ]
  have := gap_pos k
  omega

/-- A quotient that is not below a magnitude is not rounded to a smaller one. -/
theorem le_of_units_le (h : RoundsTo x a) (hk : units k ≤ x) : k ≤ a := by
  by_contra hlt
  have hmono : units (a + 1) ≤ units k := units_strictMono.monotone (Nat.lt_of_not_le hlt)
  have hbelow : (middle a : ℚ) < 2 * units k := by
    exact_mod_cast Nat.lt_of_lt_of_le (middle_lt_units a) (Nat.mul_le_mul_left 2 hmono)
  linarith [h.le_middle]

/-- A quotient that is not above a magnitude is not rounded to a larger one. -/
theorem le_of_le_units (h : RoundsTo x a) (hk : x ≤ units k) : a ≤ k := by
  by_contra hlt
  obtain ⟨j, rfl⟩ := Nat.exists_eq_add_of_lt (Nat.lt_of_not_le hlt)
  have hmono : units k ≤ units (k + j) := units_strictMono.monotone (Nat.le_add_right k j)
  have habove : (2 * units k : ℚ) < middle (k + j) := by
    exact_mod_cast Nat.lt_of_le_of_lt (Nat.mul_le_mul_left 2 hmono) (units_lt_middle (k + j))
  linarith [h.middle_le _ rfl]

/-- **A quotient is rounded with an error of at most a part of `2 ^ 53 + 1`**, from the second binade
on. -/
theorem error_le (h : RoundsTo x a) (hx : 2 ^ 52 ≤ x) : (2 ^ 53 + 1) * |units a - x| ≤ x := by
  have hnormal : binade ≤ a := h.le_of_units_le (by rw [units_binade]; exact_mod_cast hx)
  rcases le_total x (units a) with hle | hle
  · rw [abs_of_nonneg (sub_nonneg.2 hle)]
    obtain ⟨j, rfl⟩ := Nat.exists_eq_add_of_lt (Nat.lt_of_lt_of_le binade_pos hnormal)
    rw [Nat.zero_add] at h hnormal hle ⊢
    have hmiddle := h.middle_le j rfl
    rcases Nat.lt_or_ge j binade with hj | hj
    · -- The first magnitude of the second binade is not above the quotient.
      have hfirst : j + 1 = binade := Nat.le_antisymm hj hnormal
      have hunits : (units (j + 1) : ℚ) = 2 ^ 52 := by
        rw [hfirst, units_binade]
        norm_num
      linarith
    · have hgap : (2 ^ 52 * gap j : ℚ) ≤ units j := by exact_mod_cast mul_gap_le_units hj
      rw [middle_eq] at hmiddle
      rw [units_succ]
      push_cast at hmiddle ⊢
      linarith
  · rw [abs_of_nonpos (sub_nonpos.2 hle)]
    have hgap : (2 ^ 52 * gap a : ℚ) ≤ units a := by exact_mod_cast mul_gap_le_units hnormal
    have hmiddle := h.le_middle
    rw [middle_eq] at hmiddle
    push_cast at hmiddle
    linarith

/-- **Quotients that differ by a part of one of them are rounded to ranks not far apart**, if the
middles that many ranks apart differ by more than this part. -/
theorem rank_near {n q : ℕ} (hapart : ∀ r, middle (r + n) + q * middle r < q * middle (r + n))
    (hx : RoundsTo x a) (hy : RoundsTo y b) (h : q * |x - y| ≤ y) : a ≤ b + n ∧ b ≤ a + n := by
  have hapart' (r : ℕ) : (middle (r + n) + q * middle r : ℚ) < q * middle (r + n) := by
    exact_mod_cast hapart r
  have hq : (1 : ℚ) ≤ q := by
    rcases Nat.eq_zero_or_pos q with rfl | hpos
    · simpa using hapart 0
    · exact_mod_cast hpos
  have hq0 : (0 : ℚ) ≤ q := Nat.cast_nonneg q
  have hmono (r j : ℕ) : (middle r : ℚ) ≤ middle (r + j) :=
    Nat.cast_le.2 (middle_strictMono.monotone (Nat.le_add_right r j))
  have hlow : q * (y - x) ≤ q * |x - y| :=
    mul_le_mul_of_nonneg_left (abs_sub_comm x y ▸ le_abs_self _) hq0
  have hhigh : q * (x - y) ≤ q * |x - y| := mul_le_mul_of_nonneg_left (le_abs_self _) hq0
  constructor
  · by_contra hlt
    obtain ⟨j, rfl⟩ := Nat.exists_eq_add_of_lt (Nat.lt_of_not_le hlt)
    have hxlow := (hmono (b + n) j).trans (hx.middle_le _ rfl)
    have : q * middle (b + n) ≤ q * (2 * x) := mul_le_mul_of_nonneg_left hxlow hq0
    have : q * (2 * y) ≤ q * middle b := mul_le_mul_of_nonneg_left hy.le_middle hq0
    linarith [hapart' b, hmono b n, hy.le_middle]
  · by_contra hlt
    obtain ⟨j, rfl⟩ := Nat.exists_eq_add_of_lt (Nat.lt_of_not_le hlt)
    have hylow := (hmono (a + n) j).trans (hy.middle_le _ rfl)
    have : (q - 1) * middle (a + n) ≤ (q - 1) * (2 * y) :=
      mul_le_mul_of_nonneg_left hylow (sub_nonneg.2 hq)
    have : q * (2 * x) ≤ q * middle a := mul_le_mul_of_nonneg_left hx.le_middle hq0
    linarith [hapart' a]

end RoundsTo

/-! ## Equal quotients -/

theorem roundDiv_mul_right (num den : ℕ) {k : ℕ} (hk : 0 < k) :
    roundDiv (num * k) (den * k) = roundDiv num den := by
  unfold roundDiv
  simp only [Nat.mul_div_mul_right _ _ hk, Nat.mul_mod_mul_right, ← Nat.mul_assoc,
    Nat.mul_lt_mul_right hk]

theorem nearestRank_mul_right (num den : ℕ) {k : ℕ} (hk : 0 < k) :
    nearestRank (num * k) (den * k) = nearestRank num den := by
  unfold nearestRank
  simp only [Nat.shiftLeft_eq, Nat.mul_right_comm _ k, Nat.mul_div_mul_right _ _ hk,
    roundDiv_mul_right _ _ hk]

theorem nearestRank_congr {num den num' den' : ℕ} (hden : 0 < den) (hden' : 0 < den')
    (h : num * den' = num' * den) : nearestRank num den = nearestRank num' den' := by
  rw [← nearestRank_mul_right num den hden', h, Nat.mul_comm den, nearestRank_mul_right _ _ hden]

/-- The rank nearest to a rational number. -/
def rankOf (x : ℚ) : ℕ := nearestRank x.num.toNat x.den

theorem nearestRank_eq_rankOf (num : ℕ) {den : ℕ} (hden : 0 < den) :
    nearestRank num den = rankOf (num / den) := by
  generalize hx : (num / den : ℚ) = x
  have hnonneg : 0 ≤ x := hx ▸ div_nonneg (Nat.cast_nonneg _) (Nat.cast_nonneg _)
  apply nearestRank_congr hden x.den_pos
  have hnum : ((x.num.toNat : ℤ) : ℚ) = x.num := by
    rw [Int.toNat_of_nonneg (Rat.num_nonneg.2 hnonneg)]
  have hquotient : (num / den : ℚ) = x.num.toNat / x.den := by
    rw [hx, ← Int.cast_natCast x.num.toNat, hnum, Rat.num_div_den]
  rw [div_eq_div_iff (Nat.cast_ne_zero.2 hden.ne') (Nat.cast_ne_zero.2 x.den_ne_zero)] at hquotient
  exact_mod_cast hquotient

/-- **A rational number is rounded to a nearest magnitude.** -/
theorem roundsTo_rankOf {x : ℚ} (hx : 0 ≤ x) : RoundsTo (x * unitsPerOne) (rankOf x) := by
  have h := roundsTo_nearestRank x.num.toNat x.den_pos
  have hnum : ((x.num.toNat : ℤ) : ℚ) = x.num := by
    rw [Int.toNat_of_nonneg (Rat.num_nonneg.2 hx)]
  rwa [mul_div_right_comm, ← Int.cast_natCast x.num.toNat, hnum, Rat.num_div_den] at h

end HotFrames.Binary64

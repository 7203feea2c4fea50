import HotFrames.Proofs.Binary64
import HotFrames.Proofs.Json.Number

/-!
# Doubles in JSON

The text of a double is read as one and the same result, whatever stands around it
(`rereadAs_reread`), which need not be the double itself: the last bit may differ.  It is a double
if the magnitude is at most `10 ^ 40` (`exists_reread`), and not the wanted kind of value if the
double is not finite (`reread_of_not_isFinite`).
-/

namespace HotFrames.Json

open Utf8 Numeral

/-! ## Values of significands and powers -/

/-- A negative power of ten never makes a number too large. -/
theorem isSome_scale?_of_neg (x : Binary64) {power : ℤ} (h : power < 0) :
    (scale? x power).isSome = true := by
  fun_induction scale? x power with
  | case1 | case2 | case5 => omega
  | case3 | case4 => rfl
  | case6 x power hmany hzero hneg ih =>
    apply ih
    simp only [maxPower] at hmany ⊢
    omega

theorem isSome_scale? {n : ℕ} {power : ℤ} (hn : n < significandBound) (h : power ≤ 50) :
    (scale? (.ofNat n) power).isSome = true := by
  by_cases hneg : power < 0
  · exact isSome_scale?_of_neg _ hneg
  · have hx : Binary64.IsBelow 65 (.ofNat n) := Binary64.isBelow_ofNat (by decide) hn
    have hpower : 10 ^ power.natAbs < 2 ^ 201 := by
      calc 10 ^ power.natAbs ≤ (2 ^ 4) ^ power.natAbs := Nat.pow_le_pow_left (by decide) _
        _ = 2 ^ (4 * power.natAbs) := (Nat.pow_mul 2 4 _).symm
        _ < 2 ^ 201 := Nat.pow_lt_pow_right (by decide) (by omega)
    have hy : Binary64.IsBelow 202 (tenTo power.natAbs) :=
      Binary64.isBelow_ofNat (by decide) hpower
    have hfinite := (Binary64.isBelow_mul hx hy (by decide)).isFinite
    rw [scale?, if_pos (by unfold maxPower; omega), if_pos (by omega)]
    simp only [if_pos hfinite]
    rfl

theorem absorb_lt {significand : ℕ} (ds : List ℕ) (h : significand < significandBound) :
    (absorb significand ds).1 < significandBound := by
  fun_induction absorb significand ds with
  | case1 => exact h
  | case2 significand d ds hd ih => exact ih hd
  | case3 => exact h

/-- Up to nineteen digits no digit is dropped. -/
theorem absorb_snd {k significand : ℕ} {ds : List ℕ} (hds : ∀ d ∈ ds, d < 10)
    (h : significand < 10 ^ k) (hk : k + ds.length ≤ 19) : (absorb significand ds).2 = 0 := by
  induction ds generalizing k significand with
  | nil => rfl
  | cons d ds ih =>
    have hd : d < 10 := hds d List.mem_cons_self
    have hnext : significand * 10 + d < 10 ^ (k + 1) := by
      rw [Nat.pow_succ]
      omega
    rw [List.length_cons] at hk
    have hbound : 10 ^ (k + 1) ≤ 10 ^ 19 := Nat.pow_le_pow_right (by decide) (by omega)
    have hfits : significand * 10 + d < significandBound :=
      Nat.lt_of_lt_of_le hnext (Nat.le_trans hbound (by decide))
    rw [absorb, if_pos hfits]
    exact ih (fun e he => hds e (List.mem_cons_of_mem d he)) hnext (by omega)

theorem exists_scaled (negative : Bool) {n : ℕ} {power : ℤ} (hn : n < significandBound)
    (h : power ≤ 50) : ∃ number, scaled negative n power = .ok number := by
  obtain ⟨x, hx⟩ := Option.isSome_iff_exists.1 (isSome_scale? hn h)
  rw [scaled, hx]
  exact ⟨_, rfl⟩

/-- A number whose parts are short enough has a value. -/
theorem exists_number (negative : Bool) {p : Parts} (hwhole : p.whole.length ≤ 16)
    (hexponent : ∀ e ∈ p.exponent, e ≤ 50) : ∃ number, p.number negative = .ok number := by
  have hdigits : ∀ d ∈ p.whole.map digit, d < 10 := by
    intro d hd
    obtain ⟨c, hc, rfl⟩ := List.mem_map.1 hd
    have hlt := toNat_of_isDigit (isDigit_of_isNumeral p.isWhole.1 c hc)
    exact Nat.sub_lt_left_of_lt_add hlt.1 (Nat.lt_succ_of_le hlt.2)
  have hdropped : (absorb 0 (p.whole.map digit)).2 = 0 :=
    absorb_snd (k := 0) hdigits (by decide) (by rw [List.length_map]; omega)
  have hsignificand : (absorb 0 (p.whole.map digit)).1 < significandBound :=
    absorb_lt _ (by decide)
  have hclamped : ∀ e ∈ p.exponent, clamped e ≤ 50 := fun e he => by
    have := hexponent e he
    unfold clamped exponentBound
    omega
  unfold Parts.number assemble
  rcases habsorb : absorb 0 (p.whole.map digit) with ⟨significand, dropped⟩
  rw [habsorb] at hdropped hsignificand
  obtain rfl : dropped = 0 := hdropped
  simp only
  cases p.places with
  | none =>
    cases hp : p.exponent with
    | none => exact ⟨_, rfl⟩
    | some e => exact exists_scaled negative hsignificand (by have := hclamped e hp; simpa using this)
  | some places =>
    apply exists_scaled negative (absorb_lt _ hsignificand)
    cases hp : p.exponent with
    | none => simp
    | some e =>
      have := hclamped e hp
      simp only [Option.map_some, Option.getD_some]
      omega

/-! ## The layout of decimals -/

theorem isNumeral_of_forall {cs : List Char} (hne : cs ≠ []) (h : ∀ c ∈ cs, c.isDigit = true) :
    isNumeral cs = true := by
  rw [isNumeral, Bool.and_eq_true]
  refine ⟨?_, List.all_eq_true.2 h⟩
  cases cs with
  | nil => exact absurd rfl hne
  | cons => rfl

theorem isDigit_of_mem_zeros {n : ℕ} : ∀ c ∈ List.replicate n '0', c.isDigit = true := by
  intro c hc
  rw [List.eq_of_mem_replicate hc]
  rfl

/-- Digits that do not begin with a zero. -/
structure Significant (cs : List Char) : Prop where
  ne_nil : cs ≠ []
  isDigit : ∀ c ∈ cs, c.isDigit = true
  head?_ne : cs.head? ≠ some '0'

theorem significant_toDigits {n : ℕ} (h : n ≠ 0) : Significant (Nat.toDigits 10 n) where
  ne_nil := Nat.toDigits_ne_nil
  isDigit _ hc := Nat.isDigit_of_mem_toDigits (by decide) (by decide) hc
  head?_ne := head?_toDigits_ne h

namespace Parts

variable {digits : List Char} (h : Significant digits)

/-- All digits before the point are there, filled up with zeros. -/
def full (before : ℕ) : Parts where
  whole := digits.take (before + 1) ++ List.replicate (before + 1 - digits.length) '0'
  isWhole := by
    obtain ⟨c, cs, rfl⟩ := List.exists_cons_of_ne_nil h.ne_nil
    refine ⟨isNumeral_of_forall (by simp) ?_, fun hhead => absurd ?_ h.head?_ne⟩
    · intro c hc
      rcases List.mem_append.1 hc with hc | hc
      · exact h.isDigit c (List.mem_of_mem_take hc)
      · exact isDigit_of_mem_zeros c hc
    · simpa using hhead
  places :=
    let places := digits.drop (before + 1)
    some (if places.isEmpty then ['0'] else places)
  isNumeral_places := by
    rintro _ ⟨⟩
    split
    · rfl
    · next hne =>
      apply isNumeral_of_forall _ fun c hc => h.isDigit c (List.mem_of_mem_drop hc)
      intro hnil
      exact hne (by rw [hnil]; rfl)
  exponent := none

/-- All digits stand behind the point. -/
def small (zeros : ℕ) : Parts where
  whole := ['0']
  isWhole := isWhole_zero
  places := some (List.replicate zeros '0' ++ digits)
  isNumeral_places := by
    rintro _ ⟨⟩
    apply isNumeral_of_forall (by simp [h.ne_nil])
    intro c hc
    rcases List.mem_append.1 hc with hc | hc
    · exact isDigit_of_mem_zeros c hc
    · exact h.isDigit c hc
  exponent := none

/-- One digit stands before the point, and an exponent at the end. -/
def scientific (first : ℤ) : Parts where
  whole := digits.take 1
  isWhole := by
    obtain ⟨c, cs, rfl⟩ := List.exists_cons_of_ne_nil h.ne_nil
    refine ⟨isNumeral_of_forall (by simp) fun c hc => h.isDigit c (List.mem_of_mem_take hc),
      fun hhead => absurd ?_ h.head?_ne⟩
    simpa using hhead
  places := if (digits.drop 1).isEmpty then none else some (digits.drop 1)
  isNumeral_places := by
    intro places hplaces
    split at hplaces
    · cases hplaces
    · next hne =>
      cases hplaces
      apply isNumeral_of_forall _ fun c hc => h.isDigit c (List.mem_of_mem_drop hc)
      intro hnil
      exact hne (by rw [hnil]; rfl)
  exponent := some first

/-- Zero. -/
def zero : Parts where
  whole := ['0']
  isWhole := isWhole_zero
  places := some ['0']
  isNumeral_places := by
    rintro _ ⟨⟩
    rfl
  exponent := none

end Parts

namespace Parts

/-- The parts of the text of a decimal. -/
def ofDecimal (d : Binary64.Decimal) (hd : d.coefficient ≠ 0) : Parts :=
  if 0 ≤ d.first ∧ d.first < 16 then full (significant_toDigits hd) d.first.toNat
  else if -5 ≤ d.first ∧ d.first < 0 then small (significant_toDigits hd) ((-d.first).toNat - 1)
  else scientific (significant_toDigits hd) d.first

/-- **The text of a decimal has the parts of a number.** -/
theorem text_ofDecimal {d : Binary64.Decimal} (hd : d.coefficient ≠ 0) :
    (ofDecimal d hd).text = (decimalText d).toList := by
  unfold decimalText ofDecimal
  simp only
  rw [← Binary64.Decimal.first]
  split
  · simp only [text, full, placesText, exponentText, List.append_nil, String.toList_ofList]
  · split
    · simp only [text, small, placesText, exponentText, List.append_nil, String.toList_ofList]
      rfl
    · simp only [text, scientific, placesText, exponentText, List.append_assoc,
        String.toList_ofList]
      cases (List.drop 1 (Nat.toDigits 10 d.coefficient)) <;> rfl

theorem length_whole_ofDecimal {d : Binary64.Decimal} (hd : d.coefficient ≠ 0) :
    (ofDecimal d hd).whole.length ≤ 16 := by
  unfold ofDecimal
  split
  · simp only [full, List.length_append, List.length_take, List.length_replicate]
    omega
  · split
    · exact (by decide : 1 ≤ 16)
    · simp only [scientific, List.length_take]
      omega

/-- There is no other exponent than that of the first digit. -/
theorem exponent_ofDecimal {d : Binary64.Decimal} (hd : d.coefficient ≠ 0) :
    ∀ e ∈ (ofDecimal d hd).exponent, e = d.first := by
  unfold ofDecimal
  intro e he
  split at he
  · cases he
  · split at he
    · cases he
    · cases he
      rfl

end Parts

/-! ## Texts of doubles -/

/-- The parts of the text of the magnitude of a finite double. -/
def Parts.ofMagnitude (rank : ℕ) : Parts :=
  if hrank : rank = 0 then .zero
  else .ofDecimal (Binary64.shortest rank) (Binary64.coefficient_shortest_ne_zero hrank)

/-- **The text of the magnitude of a finite double has the parts of a number.** -/
theorem Parts.text_ofMagnitude (rank : ℕ) :
    (Parts.ofMagnitude rank).text =
      (if rank = 0 then "0.0" else decimalText (Binary64.shortest rank)).toList := by
  unfold ofMagnitude
  split
  · rfl
  · exact text_ofDecimal _

/-- The parts have a value if the magnitude is at most `10 ^ 40`. -/
theorem exists_number_ofMagnitude {rank : ℕ} (hrank : rank ≤ Binary64.nearestRank (10 ^ 40) 1)
    (negative : Bool) : ∃ number, (Parts.ofMagnitude rank).number negative = .ok number := by
  unfold Parts.ofMagnitude
  split
  · exact exists_number negative (by decide) nofun
  · next hzero =>
    apply exists_number negative (Parts.length_whole_ofDecimal _)
    intro e he
    have hunits : Binary64.units rank < 10 ^ 41 * Binary64.unitsPerOne := by
      have hbits : 10 ^ 40 < 2 ^ 133 := by norm_num
      apply Nat.lt_of_lt_of_le
        (Binary64.units_lt_of_le_nearestRank hrank (Binary64.units_div_one_lt hbits))
      rw [Nat.mul_comm]
      exact Nat.mul_le_mul_right _ (by norm_num)
    have hfirst := (Binary64.isWithin_shortest hzero hunits).first_lt
    rw [Parts.exponent_ofDecimal _ e he]
    omega

/-- What the text of a double is read back as. -/
def reread (x : Binary64) : Except Error Binary64 :=
  Reader.real.readWhole (encode (realText x).toList)

/-- One result for a text of a double, wherever it stands. -/
def RereadAs (x : Binary64) (result : Except Error Binary64) : Prop :=
  ∀ space rest : List UInt8, Blank space → EndsNumber rest →
    readReal (space ++ (encode (realText x).toList ++ rest)) = result.map (·, rest)

theorem RereadAs.reread_eq {x : Binary64} {result : Except Error Binary64}
    (h : RereadAs x result) : reread x = result := by
  have hread : Reader.real.read (encode (realText x).toList) = result.map (·, []) := by
    have hplain := h [] [] (fun _ hb => nomatch hb) endsNumber_nil
    rwa [List.nil_append, List.append_nil] at hplain
  rw [reread, Reader.readWhole, hread]
  cases result <;> rfl

/-- A finite double begins with a sign or a digit, and is read as its parts from there. -/
theorem exists_head_finite (negative : Bool) (rank : Fin finiteRanks) :
    ∃ b s, encode (realText (.finite negative rank)).toList = b :: s ∧
      (b = byte '-' ∨ isDigit b = true) ∧
      ∀ rest, EndsNumber rest →
        readSignedNumber? (b :: (s ++ rest)) =
          some (((Parts.ofMagnitude rank).number negative).map (·, rest)) := by
  rw [realText, String.toList_append, ← Parts.text_ofMagnitude]
  generalize Parts.ofMagnitude rank = p
  cases negative with
  | true =>
    refine ⟨byte '-', encode p.text, encode_cons_ascii (by decide) _, .inl rfl, ?_⟩
    intro rest hrest
    rw [readSignedNumber?, if_pos rfl, readNumber_text true p hrest]
  | false =>
    obtain ⟨b, s, hb, hdigit⟩ := encode_numeral p.isWhole.1
    have htext : encode p.text =
        b :: (s ++ encode (placesText p.places ++ exponentText p.exponent)) := by
      rw [Parts.text, encode_append, hb, List.cons_append]
    refine ⟨b, _, htext, .inr hdigit, fun rest hrest => ?_⟩
    have hread := readNumber_text false p hrest
    have hminus : b ≠ byte '-' := by
      rintro rfl
      exact absurd hdigit (by decide)
    rw [htext, List.cons_append] at hread
    rw [readSignedNumber?, if_neg hminus, if_pos hdigit, hread]

theorem isSpace_of_head {b : UInt8} (h : b = byte '-' ∨ isDigit b = true) : isSpace b = false := by
  rcases h with rfl | h
  · decide
  · exact isSpace_of_isDigit h

theorem rereadAs_finite (negative : Bool) (rank : Fin finiteRanks) :
    RereadAs (.finite negative rank)
      (((Parts.ofMagnitude rank).number negative).map Number.toBinary64) := by
  intro space rest hspace hrest
  obtain ⟨b, s, htext, hhead, hread⟩ := exists_head_finite negative rank
  rw [readReal, skipSpace_append hspace, htext, List.cons_append,
    skipSpace_cons (isSpace_of_head hhead)]
  simp only [hread rest hrest]
  cases (Parts.ofMagnitude rank).number negative <;> rfl

theorem realText_of_not_isFinite {x : Binary64} (h : x.isFinite = false) :
    encode (realText x).toList = byte 'n' :: wordBytes "ull" := by
  have hnull : realText x = "null" := by
    cases x with
    | finite => cases h
    | infinite | nan => rw [realText]
  have hlist : "null".toList = ['n', 'u', 'l', 'l'] := by decide
  rw [hnull, hlist, encode_ascii (by simp)]
  rfl

/-- The doubles without a text are the ones that are not finite. -/
theorem realText_eq_null_iff {x : Binary64} : realText x = "null" ↔ x.isFinite = false := by
  cases x with
  | finite negative rank =>
    obtain ⟨b, s, htext, hhead, -⟩ := exists_head_finite negative rank
    refine ⟨fun hnull => ?_, fun h => nomatch h⟩
    rw [hnull, show "null" = realText .nan from rfl, realText_of_not_isFinite rfl] at htext
    rw [← List.head_eq_of_cons_eq htext] at hhead
    exact absurd hhead (by decide)
  | infinite | nan => exact ⟨fun _ => rfl, fun _ => rfl⟩

theorem rereadAs_of_not_isFinite {x : Binary64} (h : x.isFinite = false) :
    RereadAs x (.error (.mismatch .null "f64")) := by
  intro space rest hspace _
  have hfound : readFound (byte 'n') (wordBytes "ull" ++ rest) = .ok .null := rfl
  have hnumber : readSignedNumber? (byte 'n' :: (wordBytes "ull" ++ rest)) = none := rfl
  rw [readReal, skipSpace_append hspace, realText_of_not_isFinite h, List.cons_append,
    skipSpace_cons (by decide)]
  simp only [hnumber, mismatch, hfound]
  rfl

/-- The first byte of a double is neither white space nor a closing bracket. -/
theorem exists_head_realText (x : Binary64) :
    ∃ b s, encode (realText x).toList = b :: s ∧ isSpace b = false ∧ b ≠ byte ']' := by
  cases x with
  | finite negative rank =>
    obtain ⟨b, s, htext, hhead, -⟩ := exists_head_finite negative rank
    refine ⟨b, s, htext, isSpace_of_head hhead, ?_⟩
    rintro rfl
    exact absurd hhead (by decide)
  | infinite | nan => exact ⟨_, _, realText_of_not_isFinite rfl, by decide, by decide⟩

/-- **The text of a double is read as one and the same result**, whatever white space is before it
and whatever is behind it, if that cannot be part of a number. -/
theorem rereadAs_reread (x : Binary64) : RereadAs x (reread x) := by
  have hsome : ∃ result, RereadAs x result := by
    cases x with
    | finite negative rank => exact ⟨_, rereadAs_finite negative rank⟩
    | infinite | nan => exact ⟨_, rereadAs_of_not_isFinite rfl⟩
  obtain ⟨result, hresult⟩ := hsome
  rw [hresult.reread_eq]
  exact hresult

theorem reread_of_not_isFinite {x : Binary64} (h : x.isFinite = false) :
    reread x = .error (.mismatch .null "f64") := (rereadAs_of_not_isFinite h).reread_eq

/-- A finite double is read back as the number of its parts. -/
theorem reread_finite (negative : Bool) (rank : Fin finiteRanks) :
    reread (.finite negative rank) =
      ((Parts.ofMagnitude rank).number negative).map Number.toBinary64 :=
  (rereadAs_finite negative rank).reread_eq

theorem exists_reread {x : Binary64} (h : x.IsAtMost (10 ^ 40)) : ∃ y, reread x = .ok y := by
  cases x with
  | finite negative rank =>
    obtain ⟨number, hnumber⟩ := exists_number_ofMagnitude h negative
    exact ⟨number.toBinary64, by rw [reread_finite, hnumber]; rfl⟩
  | infinite | nan => exact h.elim

end HotFrames.Json

import HotFrames.Proofs.Json.Text

/-!
# Written numbers are read back

A natural number in plain digits is read as that number (`readNatural_toDigits`).  A number with
places and an exponent is read as what is assembled of its parts (`readNumber_text`).  Both end
where the text goes on with a byte that no number contains (`EndsNumber`).
-/

namespace HotFrames.Json

open Utf8 Numeral

/-! ## White space -/

/-- Whether there is nothing but white space. -/
def Blank (s : List UInt8) : Prop := ∀ b ∈ s, isSpace b = true

theorem skipSpace_append {space : List UInt8} (h : Blank space) (s : List UInt8) :
    skipSpace (space ++ s) = skipSpace s := List.dropWhile_append_of_pos h

theorem skipSpace_cons {b : UInt8} (h : isSpace b = false) (s : List UInt8) :
    skipSpace (b :: s) = b :: s := List.dropWhile_cons_of_neg (by rw [h]; decide)

/-! ## Digits -/

/-- Whether no digit comes next. -/
def EndsDigits (rest : List UInt8) : Prop := ∀ b ∈ rest.head?, isDigit b = false

/-- Whether nothing comes next that may be part of a number. -/
def EndsNumber (rest : List UInt8) : Prop :=
  ∀ b ∈ rest.head?, isDigit b = false ∧ b ≠ byte '.' ∧ b ≠ byte 'e' ∧ b ≠ byte 'E'

theorem EndsNumber.endsDigits {rest : List UInt8} (h : EndsNumber rest) : EndsDigits rest :=
  fun b hb => (h b hb).1

theorem endsDigits_cons {b : UInt8} (h : isDigit b = false) (s : List UInt8) :
    EndsDigits (b :: s) := by
  intro b' hb'
  obtain rfl : b = b' := Option.some.inj hb'
  exact h

theorem endsNumber_nil : EndsNumber [] := fun _ h => nomatch h

theorem isSpace_of_isDigit {b : UInt8} (h : isDigit b = true) : isSpace b = false := by
  simp only [isSpace, Bool.or_eq_false_iff, decide_eq_false_iff_not]
  refine ⟨⟨⟨?_, ?_⟩, ?_⟩, ?_⟩ <;>
  · rintro rfl
    exact absurd h (by decide)

section Digits

variable {cs : List Char} {rest : List UInt8}

theorem toNat_of_isDigit {c : Char} (h : c.isDigit = true) : 0x30 ≤ c.toNat ∧ c.toNat ≤ 0x39 :=
  Char.isDigit_iff_toNat.1 h

theorem encode_digits (h : ∀ c ∈ cs, c.isDigit = true) : encode cs = cs.map byte :=
  encode_ascii fun c hc => by
    have := toNat_of_isDigit (h c hc)
    omega

theorem isDigit_byte {c : Char} (h : c.isDigit = true) : isDigit (byte c) = true := by
  obtain ⟨hlow, hhigh⟩ := toNat_of_isDigit h
  have hb : (byte c).toNat = c.toNat := toNat_byte (by omega)
  simp only [isDigit, Bool.and_eq_true, decide_eq_true_eq, UInt8.le_iff_toNat_le, hb]
  exact ⟨hlow, hhigh⟩

theorem isDigit_of_mem_encode (h : ∀ c ∈ cs, c.isDigit = true) : ∀ b ∈ encode cs, isDigit b := by
  rw [encode_digits h]
  intro b hb
  obtain ⟨c, hc, rfl⟩ := List.mem_map.1 hb
  exact isDigit_byte (h c hc)

theorem takeWhile_isDigit (h : EndsDigits rest) : rest.takeWhile isDigit = [] := by
  cases rest with
  | nil => rfl
  | cons b s => exact List.takeWhile_cons_of_neg (by rw [h b rfl]; decide)

theorem dropWhile_isDigit (h : EndsDigits rest) : rest.dropWhile isDigit = rest := by
  cases rest with
  | nil => rfl
  | cons b s => exact List.dropWhile_cons_of_neg (by rw [h b rfl]; decide)

theorem leadingDigits_append (h : ∀ c ∈ cs, c.isDigit = true) (hrest : EndsDigits rest) :
    leadingDigits (encode cs ++ rest) = cs.map digit := by
  rw [leadingDigits, List.takeWhile_append_of_pos (isDigit_of_mem_encode h),
    takeWhile_isDigit hrest, List.append_nil, encode_digits h, List.map_map]
  apply List.map_congr_left
  intro c hc
  have hb : (byte c).toNat = c.toNat := toNat_byte (by have := toNat_of_isDigit (h c hc); omega)
  exact congrArg (· - 0x30) hb

theorem afterDigits_append (h : ∀ c ∈ cs, c.isDigit = true) (hrest : EndsDigits rest) :
    afterDigits (encode cs ++ rest) = rest := by
  rw [afterDigits, List.dropWhile_append_of_pos (isDigit_of_mem_encode h), dropWhile_isDigit hrest]

theorem isDigit_of_isNumeral (h : isNumeral cs = true) : ∀ c ∈ cs, c.isDigit = true :=
  List.all_eq_true.1 ((Bool.and_eq_true _ _).mp h).2

/-- A numeral begins with a digit. -/
theorem encode_numeral (h : isNumeral cs = true) :
    ∃ b s, encode cs = b :: s ∧ isDigit b = true := by
  cases cs with
  | nil => cases h
  | cons c cs =>
    have hdigits := isDigit_of_isNumeral h
    refine ⟨byte c, cs.map byte, encode_digits hdigits, isDigit_byte (hdigits c List.mem_cons_self)⟩

theorem readDigits_append (h : isNumeral cs = true) (hrest : EndsDigits rest) :
    readDigits (encode cs ++ rest) = .ok (cs.map digit, rest) := by
  have hdigits := isDigit_of_isNumeral h
  have hleading := leadingDigits_append hdigits hrest
  have hafter := afterDigits_append hdigits hrest
  obtain ⟨b, s, hb, hdigit⟩ := encode_numeral h
  rw [hb, List.cons_append] at hleading hafter ⊢
  rw [readDigits, if_pos hdigit, hleading, hafter]

/-! ### Digits before the point -/

/-- Whether some digits may stand before a point: a single zero, or digits that do not start with
one. -/
def IsWhole (cs : List Char) : Prop :=
  isNumeral cs = true ∧ (cs.head? = some '0' → cs = ['0'])

theorem isWhole_zero : IsWhole ['0'] := ⟨rfl, fun _ => rfl⟩

theorem readWhole_append (h : IsWhole cs) (hrest : EndsDigits rest) :
    readWhole (encode cs ++ rest) = .ok (cs.map digit, rest) := by
  by_cases hzero : cs.head? = some '0'
  · obtain rfl := h.2 hzero
    have hhead : ¬ (rest.head?.map isDigit).getD false = true := by
      cases hr : rest.head? with
      | none => decide
      | some b => simpa using hrest b hr
    rw [encode_cons_ascii (by decide), encode_nil, List.singleton_append, readWhole, if_pos rfl,
      if_neg hhead]
    rfl
  · have hdigits := isDigit_of_isNumeral h.1
    have hread := readDigits_append h.1 hrest
    cases cs with
    | nil => cases h.1
    | cons c cs =>
      have hc := hdigits c List.mem_cons_self
      have hascii := toNat_of_isDigit hc
      have hne : byte c ≠ byte '0' := by
        intro he
        have := congrArg UInt8.toNat he
        rw [toNat_byte (by omega), toNat_byte (by decide)] at this
        exact hzero (congrArg some (Char.toNat_inj.1 this))
      rw [encode_cons_ascii (by omega), List.cons_append] at hread ⊢
      rw [readDigits, if_pos (isDigit_byte hc)] at hread
      rw [readWhole, if_neg hne, if_pos (isDigit_byte hc), hread]

theorem head?_toDigits_ne {n : ℕ} (h : n ≠ 0) : (Nat.toDigits 10 n).head? ≠ some '0' := by
  induction n using Nat.strongRecOn with
  | ind n ih =>
    by_cases hn : n < 10
    · rw [Nat.toDigits_of_lt_base hn]
      interval_cases n <;> simp_all
    · rw [Nat.toDigits_of_base_le (by decide) (by omega),
        List.head?_append_of_ne_nil _ Nat.toDigits_ne_nil]
      exact ih (n / 10) (by omega) (by omega)

theorem isWhole_toDigits (n : ℕ) : IsWhole (Nat.toDigits 10 n) := by
  refine ⟨isNumeral_toDigits n, fun h => ?_⟩
  by_cases hn : n = 0
  · subst hn
    rfl
  · exact absurd h (head?_toDigits_ne hn)

end Digits

/-- **A natural number in plain digits is read back.** -/
theorem readNatural_toDigits {bound n : ℕ} (hn : n < bound) {space rest : List UInt8}
    (hspace : Blank space) (hrest : EndsDigits rest) :
    readNatural bound (space ++ (encode (Nat.toDigits 10 n) ++ rest)) = .ok (n, rest) := by
  have hread := readWhole_append (isWhole_toDigits n) hrest
  obtain ⟨b, s, hb, hdigit⟩ := encode_numeral (isNumeral_toDigits n)
  have hcapped : capped bound ((Nat.toDigits 10 n).map digit) = n := by
    rw [capped_eq_min, ← value, value_toDigits]
    omega
  rw [readNatural, skipSpace_append hspace, hb, List.cons_append, skipSpace_cons (isSpace_of_isDigit hdigit)]
  rw [hb, List.cons_append] at hread
  simp only [hdigit, if_true, hread, hcapped, if_pos hn]

/-! ## Places and exponents -/

/-- The places of a number, with their point. -/
def placesText : Option (List Char) → List Char
  | none => []
  | some cs => '.' :: cs

/-- The exponent of a number, with its letter and sign. -/
def exponentText : Option ℤ → List Char
  | none => []
  | some e => 'e' :: (if e < 0 then '-' else '+') :: Nat.toDigits 10 e.natAbs

/-- An exponent as it is read. -/
def clamped (e : ℤ) : ℤ := max (-exponentBound) (min e exponentBound)

section Number

variable {rest : List UInt8}

theorem readPlaces_append {places : Option (List Char)}
    (hplaces : ∀ cs ∈ places, isNumeral cs = true) (hdigits : EndsDigits rest)
    (hpoint : byte '.' ∉ rest.head?) :
    readPlaces (encode (placesText places) ++ rest) = .ok (places.map (·.map digit), rest) := by
  cases places with
  | none =>
    cases rest with
    | nil => rfl
    | cons b s =>
      have hne : b ≠ byte '.' := fun h => hpoint (by rw [h]; rfl)
      rw [placesText, encode_nil, List.nil_append, readPlaces]
      simp only [if_neg hne]
      rfl
  | some cs =>
    rw [placesText, encode_cons_ascii (by decide), List.cons_append, readPlaces]
    simp only [if_true, readDigits_append (hplaces cs rfl) hdigits]
    rfl

theorem readExponent_append (exponent : Option ℤ) (hrest : EndsNumber rest) :
    readExponent (encode (exponentText exponent) ++ rest) = .ok (exponent.map clamped, rest) := by
  cases exponent with
  | none =>
    cases rest with
    | nil => rfl
    | cons b s =>
      have hne : ¬ (b = byte 'e' ∨ b = byte 'E') := not_or.2 (hrest b rfl).2.2
      rw [exponentText, encode_nil, List.nil_append, readExponent]
      simp only [if_neg hne]
      rfl
  | some e =>
    have hread := readDigits_append (isNumeral_toDigits e.natAbs) hrest.endsDigits
    have hvalue : ofDigits ((Nat.toDigits 10 e.natAbs).map digit) = e.natAbs :=
      value_toDigits e.natAbs
    rw [exponentText, encode_cons_ascii (by decide), List.cons_append, readExponent]
    by_cases he : e < 0
    · rw [if_pos he, encode_cons_ascii (by decide), List.cons_append]
      have hsign : readSign (byte '-' :: (encode (Nat.toDigits 10 e.natAbs) ++ rest)) =
          (true, encode (Nat.toDigits 10 e.natAbs) ++ rest) := rfl
      simp only [true_or, if_true, hsign, hread, capped_eq_min, hvalue]
      refine congrArg (fun n => Except.ok (some n, rest)) ?_
      unfold clamped
      omega
    · rw [if_neg he, encode_cons_ascii (by decide), List.cons_append]
      have hsign : readSign (byte '+' :: (encode (Nat.toDigits 10 e.natAbs) ++ rest)) =
          (false, encode (Nat.toDigits 10 e.natAbs) ++ rest) := rfl
      simp only [true_or, if_true, hsign, hread, capped_eq_min, hvalue, Bool.false_eq_true,
        if_false]
      refine congrArg (fun n => Except.ok (some n, rest)) ?_
      unfold clamped
      omega

theorem endsNumber_exponentText (exponent : Option ℤ) (hrest : EndsNumber rest) :
    EndsDigits (encode (exponentText exponent) ++ rest) ∧
      byte '.' ∉ (encode (exponentText exponent) ++ rest).head? := by
  cases exponent with
  | none =>
    exact ⟨hrest.endsDigits, fun h => (hrest _ h).2.1 rfl⟩
  | some e =>
    rw [exponentText, encode_cons_ascii (by decide), List.cons_append]
    exact ⟨endsDigits_cons (by decide) _, by simp only [List.head?_cons]; decide⟩

theorem endsDigits_placesText {places : Option (List Char)} (hrest : EndsDigits rest) :
    EndsDigits (encode (placesText places) ++ rest) := by
  cases places with
  | none => exact hrest
  | some cs =>
    rw [placesText, encode_cons_ascii (by decide), List.cons_append]
    exact endsDigits_cons (by decide) _

/-- The parts of a written number: the digits before the point, the places after it, if there is a
point, and the exponent, if there is one. -/
structure Parts where
  whole : List Char
  isWhole : IsWhole whole
  places : Option (List Char)
  isNumeral_places : ∀ cs ∈ places, isNumeral cs = true
  exponent : Option ℤ

namespace Parts

/-- The text of the parts. -/
def text (p : Parts) : List Char := p.whole ++ (placesText p.places ++ exponentText p.exponent)

/-- What the parts are read as. -/
def number (p : Parts) (negative : Bool) : Except Error Number :=
  assemble negative (p.whole.map digit) (p.places.map (·.map digit)) (p.exponent.map clamped)

end Parts

/-- **A number with places and an exponent is read as what is assembled of its parts.** -/
theorem readNumber_text (negative : Bool) (p : Parts) (hrest : EndsNumber rest) :
    readNumber negative (encode p.text ++ rest) = (p.number negative).map (·, rest) := by
  obtain ⟨hdigits, hpoint⟩ := endsNumber_exponentText p.exponent hrest
  rw [Parts.text, encode_append, encode_append, List.append_assoc, List.append_assoc, readNumber,
    readWhole_append p.isWhole (endsDigits_placesText hdigits)]
  simp only [readPlaces_append p.isNumeral_places hdigits hpoint,
    readExponent_append p.exponent hrest]
  rw [Parts.number]
  cases assemble negative (p.whole.map digit) (p.places.map (·.map digit))
    (p.exponent.map clamped) <;> rfl

end Number

end HotFrames.Json

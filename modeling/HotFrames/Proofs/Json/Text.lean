import HotFrames.Json.Reader
import HotFrames.Proofs.Text.Utf8

/-!
# Texts between quotes

What may stand between quotes (`TextBody`), and which text it spells (`Spells`).  A character stands
for itself or is given by an escape, of one letter, of four digits, or of two fours that are a
surrogate pair.  A spelled text is read as that text (`Spells.readText`), whatever follows its closing
quote, and passed over (`TextBody.skipText`).  Among the spellings is the written one
(`spells_flatMap_escape`), so that a quoted text is read back (`readText_quoted`).
-/

namespace HotFrames.Json

open Utf8

/-! ## Bytes of characters -/

theorem toNat_byte {c : Char} (h : c.toNat < 0x80) : (byte c).toNat = c.toNat :=
  Utf8.toNat_byte (by omega)

theorem encode_cons_ascii {c : Char} (h : c.toNat < 0x80) (cs : List Char) :
    encode (c :: cs) = byte c :: encode cs := by
  have hone : String.utf8EncodeChar c = [byte c] := by
    unfold String.utf8EncodeChar
    simp only [Char.toNat_val]
    rw [if_pos (Nat.le_of_lt_succ h)]
    rfl
  rw [encode, List.flatMap_cons, hone]
  rfl

/-- The bytes of an ASCII text. -/
theorem encode_ascii {cs : List Char} (h : ∀ c ∈ cs, c.toNat < 0x80) :
    encode cs = cs.map byte := by
  induction cs with
  | nil => rfl
  | cons c cs ih =>
    rw [encode_cons_ascii (h c List.mem_cons_self), ih fun d hd => h d (List.mem_cons_of_mem c hd),
      List.map_cons]

/-- A byte of a character is the character itself or lies outside ASCII. -/
theorem byte_cases {c : Char} {b : UInt8} (h : b ∈ String.utf8EncodeChar c) :
    b = byte c ∧ c.toNat < 0x80 ∨ 0x80 ≤ b.toNat := by
  unfold String.utf8EncodeChar at h
  simp only [Char.toNat_val] at h
  split_ifs at h with h1 h2 h3
  · exact .inl ⟨List.mem_singleton.1 h, Nat.lt_succ_of_le h1⟩
  all_goals
    refine .inr ?_
    simp only [List.mem_cons, List.not_mem_nil, or_false] at h
    rcases h with rfl | rfl | rfl | rfl
    all_goals
      rw [Utf8.toNat_byte (by omega)]
      omega

/-- The bytes of a character that needs no escape stand for themselves. -/
theorem plain_of_mem_utf8EncodeChar {c : Char} (hquote : c ≠ '"') (hslash : c ≠ '\\')
    (hcontrol : 0x20 ≤ c.toNat) {b : UInt8} (hb : b ∈ String.utf8EncodeChar c) :
    b ≠ byte '"' ∧ b ≠ byte '\\' ∧ 0x20 ≤ b.toNat := by
  rcases byte_cases hb with ⟨rfl, hascii⟩ | hb
  · have hne {d : Char} (hd : d.toNat < 0x80) (h : c ≠ d) : byte c ≠ byte d := fun he =>
      h (Char.ext (UInt32.toNat_inj.1 (by
        have := congrArg UInt8.toNat he
        rwa [toNat_byte hascii, toNat_byte hd] at this)))
    refine ⟨hne (by decide) hquote, hne (by decide) hslash, ?_⟩
    rwa [toNat_byte hascii]
  · refine ⟨?_, ?_, by omega⟩ <;>
    · rintro rfl
      exact absurd hb (by decide)

/-! ## What stands between quotes -/

/-- The letters of escapes, each with the character that it stands for. -/
def escapeLetters : List (Char × Char) :=
  [('"', '"'), ('\\', '\\'), ('/', '/'), ('b', '\x08'), ('f', '\x0C'), ('n', '\n'), ('r', '\r'),
    ('t', '\t')]

/-- Whether a byte is a hexadecimal digit of either case. -/
def HexDigit (n : ℕ) (b : UInt8) : Prop :=
  n < 16 ∧ (b = byte (hexDigit n) ∨ b = byte (hexDigit n).toUpper)

/-- Whether some bytes are four hexadecimal digits of a number. -/
def HexUnit (n : ℕ) (s : List UInt8) : Prop :=
  ∃ i j k l a b c d, (HexDigit i a ∧ HexDigit j b ∧ HexDigit k c ∧ HexDigit l d) ∧
    s = [a, b, c, d] ∧ n = ((i * 16 + j) * 16 + k) * 16 + l

/-- What may stand between quotes. -/
inductive TextBody : List UInt8 → Prop
  | nil : TextBody []
  | plain {b : UInt8} {s : List UInt8} (hb : b ≠ byte '"' ∧ b ≠ byte '\\' ∧ 0x20 ≤ b.toNat)
      (hs : TextBody s) : TextBody (b :: s)
  | letter {l c : Char} {s : List UInt8} (hl : (l, c) ∈ escapeLetters) (hs : TextBody s) :
      TextBody (byte '\\' :: byte l :: s)
  | unit {n : ℕ} {digits s : List UInt8} (hn : HexUnit n digits) (hs : TextBody s) :
      TextBody (byte '\\' :: byte 'u' :: (digits ++ s))

/-- What stands between quotes for a text. -/
inductive Spells : List Char → List UInt8 → Prop
  | nil : Spells [] []
  | plain {c : Char} {cs : List Char} {s : List UInt8} (hquote : c ≠ '"') (hslash : c ≠ '\\')
      (hcontrol : 0x20 ≤ c.toNat) (hs : Spells cs s) :
      Spells (c :: cs) (String.utf8EncodeChar c ++ s)
  | letter {l c : Char} {cs : List Char} {s : List UInt8} (hl : (l, c) ∈ escapeLetters)
      (hs : Spells cs s) : Spells (c :: cs) (byte '\\' :: byte l :: s)
  | unit {n : ℕ} {digits s : List UInt8} {cs : List Char} (hn : HexUnit n digits)
      (hsurrogate : ¬ (0xD800 ≤ n ∧ n ≤ 0xDFFF)) (hs : Spells cs s) :
      Spells (Char.ofNat n :: cs) (byte '\\' :: byte 'u' :: (digits ++ s))
  | pair {m n : ℕ} {high low s : List UInt8} {cs : List Char} (hm : HexUnit m high)
      (hn : HexUnit n low) (hhigh : 0xD800 ≤ m ∧ m ≤ 0xDBFF) (hlow : 0xDC00 ≤ n ∧ n ≤ 0xDFFF)
      (hs : Spells cs s) :
      Spells (Char.ofNat (0x10000 + (m - 0xD800) * 0x400 + (n - 0xDC00)) :: cs)
        (byte '\\' :: byte 'u' :: (high ++ byte '\\' :: byte 'u' :: (low ++ s)))

/-! ## Escapes -/

theorem letterEscape?_of_mem {l c : Char} (h : (l, c) ∈ escapeLetters) :
    letterEscape? (byte l) = some c := by
  have hall : ∀ e ∈ escapeLetters, letterEscape? (byte e.1) = some e.2 := by decide
  exact hall _ h

theorem letterEscape?_u : letterEscape? (byte 'u') = none := by decide

theorem HexDigit.hexValue?_eq {n : ℕ} {b : UInt8} (h : HexDigit n b) : hexValue? b = some n := by
  have hboth : ∀ n < 16, hexValue? (byte (hexDigit n)) = some n ∧
      hexValue? (byte (hexDigit n).toUpper) = some n := by decide
  obtain ⟨hn, rfl | rfl⟩ := h
  · exact (hboth n hn).1
  · exact (hboth n hn).2

theorem HexUnit.hexUnit_eq {n : ℕ} {s : List UInt8} (h : HexUnit n s) (rest : List UInt8) :
    hexUnit (s ++ rest) = .ok (n, rest) := by
  obtain ⟨i, j, k, l, a, b, c, d, ⟨ha, hb, hc, hd⟩, rfl, rfl⟩ := h
  simp only [List.cons_append, List.nil_append, hexUnit, ha.hexValue?_eq, hb.hexValue?_eq,
    hc.hexValue?_eq, hd.hexValue?_eq]

theorem readEscape_letter {l c : Char} (h : (l, c) ∈ escapeLetters) (rest : List UInt8) :
    readEscape (byte l :: rest) = .ok (c, rest) := by
  simp only [readEscape, letterEscape?_of_mem h]

theorem readEscape_unit {n : ℕ} {digits : List UInt8} (hn : HexUnit n digits)
    (hsurrogate : ¬ (0xD800 ≤ n ∧ n ≤ 0xDFFF)) (rest : List UInt8) :
    readEscape (byte 'u' :: (digits ++ rest)) = .ok (Char.ofNat n, rest) := by
  simp only [readEscape, letterEscape?_u, if_true, unicodeEscape, hn.hexUnit_eq]
  rw [if_neg (by omega), if_neg (by omega)]

theorem readEscape_pair {m n : ℕ} {high low : List UInt8} (hm : HexUnit m high)
    (hn : HexUnit n low) (hhigh : 0xD800 ≤ m ∧ m ≤ 0xDBFF) (hlow : 0xDC00 ≤ n ∧ n ≤ 0xDFFF)
    (rest : List UInt8) :
    readEscape (byte 'u' :: (high ++ byte '\\' :: byte 'u' :: (low ++ rest))) =
      .ok (Char.ofNat (0x10000 + (m - 0xD800) * 0x400 + (n - 0xDC00)), rest) := by
  have hpair : lowSurrogate (byte '\\' :: byte 'u' :: (low ++ rest)) = .ok (n, rest) := by
    simp only [lowSurrogate, ne_eq, not_true_eq_false, if_false, hn.hexUnit_eq]
    rw [if_pos hlow]
  simp only [readEscape, letterEscape?_u, if_true, unicodeEscape, hm.hexUnit_eq]
  rw [if_neg (by omega), if_pos hhigh]
  simp only [hpair]

/-- The result of reading the bytes of a text, with some bytes before them. -/
def behind (bs : List UInt8) (r : Read (List UInt8)) : Read (List UInt8) :=
  r.map fun text => (bs ++ text.1, text.2)

theorem behind_nil (r : Read (List UInt8)) : behind [] r = r := by cases r <;> rfl

theorem behind_behind (bs bs' : List UInt8) (r : Read (List UInt8)) :
    behind bs (behind bs' r) = behind (bs ++ bs') r := by
  cases r with
  | error e => rfl
  | ok text => simp only [behind, Except.map, List.append_assoc]

theorem textBytes_of_escape {s rest : List UInt8} {c : Char} (h : readEscape s = .ok (c, rest)) :
    textBytes (byte '\\' :: s) = behind (String.utf8EncodeChar c) (textBytes rest) := by
  rw [textBytes, if_neg (by decide), if_pos rfl]
  split
  · next h' => rw [h] at h'; cases h'
  · next h' =>
    rw [h] at h'
    cases h'
    cases textBytes rest <;> rfl

/-- Bytes that stand for themselves. -/
theorem textBytes_append_plain {bs : List UInt8}
    (h : ∀ b ∈ bs, b ≠ byte '"' ∧ b ≠ byte '\\' ∧ 0x20 ≤ b.toNat) (s : List UInt8) :
    textBytes (bs ++ s) = behind bs (textBytes s) := by
  induction bs with
  | nil => exact (behind_nil _).symm
  | cons b bs ih =>
    obtain ⟨hquote, hslash, hcontrol⟩ := h b List.mem_cons_self
    have hlt : ¬ b < 0x20 := by
      rw [UInt8.lt_iff_toNat_lt]
      exact Nat.not_lt.2 hcontrol
    rw [List.cons_append, textBytes, if_neg hquote, if_neg hslash, if_neg hlt,
      ih fun b' hb' => h b' (List.mem_cons_of_mem b hb')]
    cases textBytes s <;> rfl

theorem toNat_hexDigit_lt : ∀ n < 16, (hexDigit n).toNat < 0x80 := by decide

/-! ## Texts -/

theorem decode?_encode (cs : List Char) : decode? (encode cs) = some cs := by
  simp [decode?, scan_encode, List.reduceOption]

/-- A spelled text gives the bytes of its characters, whatever follows it. -/
theorem Spells.textBytes_append {cs : List Char} {s : List UInt8} (h : Spells cs s)
    (rest : List UInt8) : textBytes (s ++ rest) = behind (encode cs) (textBytes rest) := by
  induction h with
  | nil => exact (behind_nil _).symm
  | plain hquote hslash hcontrol _ ih =>
    rw [List.append_assoc,
      textBytes_append_plain fun _ hb => plain_of_mem_utf8EncodeChar hquote hslash hcontrol hb, ih,
      behind_behind]
    rfl
  | letter hl _ ih =>
    rw [List.cons_append, List.cons_append, textBytes_of_escape (readEscape_letter hl _), ih,
      behind_behind]
    rfl
  | unit hn hsurrogate _ ih =>
    rw [List.cons_append, List.cons_append, List.append_assoc,
      textBytes_of_escape (readEscape_unit hn hsurrogate _), ih, behind_behind]
    rfl
  | pair hm hn hhigh hlow _ ih =>
    simp only [List.cons_append, List.append_assoc]
    rw [textBytes_of_escape (readEscape_pair hm hn hhigh hlow _), ih, behind_behind]
    rfl

/-- **A spelled text is read as that text**, after its opening quote. -/
theorem Spells.readText {t : String} {s : List UInt8} (h : Spells t.toList s) (rest : List UInt8) :
    Json.readText (s ++ byte '"' :: rest) = .ok (t, rest) := by
  have hend : textBytes (byte '"' :: rest) = .ok ([], rest) := by
    rw [textBytes, if_pos rfl]
  rw [Json.readText, h.textBytes_append, hend]
  simp only [behind, Except.map, List.append_nil, decode?_encode, String.ofList_toList]

/-- The escape of a character spells it. -/
theorem Spells.escape {cs : List Char} {s : List UInt8} (c : Char) (hs : Spells cs s) :
    Spells (c :: cs) (encode (escape c) ++ s) := by
  unfold Json.escape
  split_ifs with h1 h2 h3 h4 h5 h6 h7 h8
  -- The escapes of one letter are closed terms.
  iterate 7
    subst c
    exact .letter (by decide) hs
  · have hdigits : HexUnit c.toNat [byte '0', byte '0', byte (hexDigit (c.toNat / 16)),
        byte (hexDigit (c.toNat % 16))] :=
      ⟨0, 0, c.toNat / 16, c.toNat % 16, _, _, _, _, ⟨⟨by decide, .inl rfl⟩, ⟨by decide, .inl rfl⟩,
        ⟨by omega, .inl rfl⟩, ⟨by omega, .inl rfl⟩⟩, rfl, by omega⟩
    have hhigh := toNat_hexDigit_lt (c.toNat / 16) (by omega)
    have hlow := toNat_hexDigit_lt (c.toNat % 16) (by omega)
    have hunit := Spells.unit hdigits (by omega) hs
    rw [Char.ofNat_toNat] at hunit
    rw [encode_cons_ascii (by decide), encode_cons_ascii (by decide), encode_cons_ascii (by decide),
      encode_cons_ascii (by decide), encode_cons_ascii hhigh, encode_cons_ascii hlow]
    exact hunit
  · have hone : encode [c] = String.utf8EncodeChar c := List.append_nil _
    rw [hone]
    exact .plain h1 h2 (by omega) hs

/-- The written form of a text spells it. -/
theorem spells_flatMap_escape (cs : List Char) : Spells cs (encode (cs.flatMap escape)) := by
  induction cs with
  | nil => exact .nil
  | cons c cs ih =>
    rw [List.flatMap_cons, encode_append]
    exact ih.escape c

/-- **A quoted text is read back**, after its opening quote. -/
theorem readText_quoted (s : String) (rest : List UInt8) :
    readText (encode (s.toList.flatMap escape) ++ byte '"' :: rest) = .ok (s, rest) :=
  (spells_flatMap_escape s.toList).readText rest

/-! ## Passing over -/

theorem skipEscape_letter {l c : Char} (h : (l, c) ∈ escapeLetters) (rest : List UInt8) :
    skipEscape (byte l :: rest) = .ok rest := by
  simp only [skipEscape, letterEscape?_of_mem h, Option.isSome_some, if_true]

theorem skipEscape_unit {n : ℕ} {digits : List UInt8} (hn : HexUnit n digits) (rest : List UInt8) :
    skipEscape (byte 'u' :: (digits ++ rest)) = .ok rest := by
  simp only [skipEscape, letterEscape?_u, Option.isSome_none, Bool.false_eq_true, if_false, if_true,
    hn.hexUnit_eq]

theorem skipText_of_escape {s rest : List UInt8} (h : skipEscape s = .ok rest) :
    skipText (byte '\\' :: s) = skipText rest := by
  rw [skipText, if_neg (by decide), if_pos rfl]
  split
  · next h' => rw [h] at h'; cases h'
  · next h' =>
    rw [h] at h'
    cases h'
    rfl

/-- **A text is passed over to its closing quote.** -/
theorem TextBody.skipText {s : List UInt8} (h : TextBody s) (rest : List UInt8) :
    Json.skipText (s ++ byte '"' :: rest) = .ok rest := by
  induction h with
  | nil => rw [List.nil_append, Json.skipText, if_pos rfl]
  | plain hb _ ih =>
    obtain ⟨hquote, hslash, hcontrol⟩ := hb
    rw [List.cons_append, Json.skipText, if_neg hquote, if_neg hslash,
      if_neg (by rw [UInt8.lt_iff_toNat_lt]; exact Nat.not_lt.2 hcontrol), ih]
  | letter hl _ ih =>
    rw [List.cons_append, List.cons_append, skipText_of_escape (skipEscape_letter hl _), ih]
  | unit hn _ ih =>
    rw [List.cons_append, List.cons_append, List.append_assoc,
      skipText_of_escape (skipEscape_unit hn _), ih]

theorem encode_quoted (s : String) (rest : List UInt8) :
    encode (quoted s) ++ rest =
      byte '"' :: (encode (s.toList.flatMap escape) ++ byte '"' :: rest) := by
  rw [quoted, encode_cons_ascii (by decide), encode_append, encode_cons_ascii (by decide),
    List.cons_append, List.append_assoc]
  rfl

end HotFrames.Json

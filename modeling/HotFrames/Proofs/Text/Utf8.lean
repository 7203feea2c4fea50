import HotFrames.Text.Utf8
import Mathlib

/-!
# The decoder at ASCII bytes and on encoded texts

An ASCII byte ends whatever sequence was begun before it, so the texts to both sides of such a byte
are decoded apart (`decodeLossy_append_ascii`), and no ASCII character comes out of other bytes
(`mem_of_mem_decodeLossy`).  The latter rests on the values that a state of the decoder can still
lead to, which are characters outside ASCII (`State.Sound`).  The bytes of a text are decoded to
that text (`decodeLossy_encode`).
-/

namespace HotFrames.Utf8

/-! ## Single bytes -/

theorem toNat_ofNat_of_valid {n : ℕ} (h : n.isValidChar) : (Char.ofNat n).toNat = n := by
  simp only [Char.ofNat, h, dif_pos]
  rfl

theorem begin_ascii {b : UInt8} (h : b.toNat < 0x80) :
    begin b = ([some (Char.ofNat b.toNat)], .start) := by
  simp [begin, UInt8.lt_iff_toNat_lt, h]

theorem begin_two {b : UInt8} (h : 0xC2 ≤ b.toNat) (h' : b.toNat < 0xE0) :
    begin b = ([], .inside 1 0x80 0xBF (b.toNat - 0xC0)) := by
  simp [begin, UInt8.lt_iff_toNat_lt, h', show ¬ b.toNat < 128 by omega,
    show ¬ b.toNat < 194 by omega]

theorem begin_three {b : UInt8} (h : 0xE0 ≤ b.toNat) (h' : b.toNat < 0xF0) :
    begin b = ([], .inside 2 (if b.toNat = 0xE0 then 0xA0 else 0x80)
      (if b.toNat = 0xED then 0x9F else 0xBF) (b.toNat - 0xE0)) := by
  simp [begin, UInt8.lt_iff_toNat_lt, ← UInt8.toNat_inj, h', show ¬ b.toNat < 128 by omega,
    show ¬ b.toNat < 194 by omega, show ¬ b.toNat < 224 by omega]

theorem begin_four {b : UInt8} (h : 0xF0 ≤ b.toNat) (h' : b.toNat < 0xF5) :
    begin b = ([], .inside 3 (if b.toNat = 0xF0 then 0x90 else 0x80)
      (if b.toNat = 0xF4 then 0x8F else 0xBF) (b.toNat - 0xF0)) := by
  simp [begin, UInt8.lt_iff_toNat_lt, ← UInt8.toNat_inj, h', show ¬ b.toNat < 128 by omega,
    show ¬ b.toNat < 194 by omega, show ¬ b.toNat < 224 by omega, show ¬ b.toNat < 240 by omega]

/-- The other bytes begin no character. -/
theorem begin_bad {b : UInt8} (h : 0x80 ≤ b.toNat) (h' : b.toNat < 0xC2 ∨ 0xF5 ≤ b.toNat) :
    begin b = ([none], .start) := by
  have hascii : ¬ b.toNat < 128 := by omega
  by_cases hlow : b.toNat < 194
  · simp [begin, UInt8.lt_iff_toNat_lt, hascii, hlow]
  · simp [begin, UInt8.lt_iff_toNat_lt, hascii, hlow, show ¬ b.toNat < 224 by omega,
      show ¬ b.toNat < 240 by omega, show ¬ b.toNat < 245 by omega]

theorem feed_inside {left bits : ℕ} {low high b : UInt8} (hlow : low.toNat ≤ b.toNat)
    (hhigh : b.toNat ≤ high.toNat) :
    feed (.inside left low high bits) b =
      if left ≤ 1 then ([some (Char.ofNat (bits * 64 + (b.toNat - 0x80)))], .start)
      else ([], .inside (left - 1) 0x80 0xBF (bits * 64 + (b.toNat - 0x80))) := by
  simp [feed, UInt8.le_iff_toNat_le, hlow, hhigh]

/-- A byte out of range breaks a sequence off and begins anew. -/
theorem feed_inside_of_not {left bits : ℕ} {low high b : UInt8}
    (h : ¬ (low.toNat ≤ b.toNat ∧ b.toNat ≤ high.toNat)) :
    feed (.inside left low high bits) b = (none :: (begin b).1, (begin b).2) := by
  simp [feed, UInt8.le_iff_toNat_le, h]

/-! ## What a state can lead to -/

/-- Whether all numbers of a range are values of characters outside ASCII. -/
def Scalars (first last : ℕ) : Prop :=
  0x80 ≤ first ∧ (last < 0xD800 ∨ 0xE000 ≤ first ∧ last < 0x110000)

theorem Scalars.toNat_ofNat {first last n : ℕ} (h : Scalars first last) (hfirst : first ≤ n)
    (hlast : n ≤ last) : (Char.ofNat n).toNat = n :=
  toNat_ofNat_of_valid (by unfold Scalars at h; unfold Nat.isValidChar; omega)

/-- The inside of a character as the decoder knows it after its first bytes: there are one to three
bytes to come, none of them ASCII, and every value that they can complete is a character outside
ASCII. -/
def Inside (left : ℕ) (low high : UInt8) (bits : ℕ) : Prop :=
  (left = 1 ∨ left = 2 ∨ left = 3) ∧ 0x80 ≤ low.toNat ∧ high.toNat ≤ 0xBF ∧
    Scalars ((bits * 64 + (low.toNat - 0x80)) * 64 ^ (left - 1))
      ((bits * 64 + (high.toNat - 0x80)) * 64 ^ (left - 1) + (64 ^ (left - 1) - 1))

/-- A state that the decoder can be in. -/
def State.Sound : State → Prop
  | .start => True
  | .inside left low high bits => Inside left low high bits

/-- Everything that a byte between two characters can do. -/
theorem begin_cases (b : UInt8) :
    (b.toNat < 0x80 ∧ begin b = ([some (Char.ofNat b.toNat)], .start)) ∨
    (0x80 ≤ b.toNat ∧ begin b = ([none], .start)) ∨
    (0x80 ≤ b.toNat ∧ ∃ left low high bits, Inside left low high bits ∧
      begin b = ([], .inside left low high bits)) := by
  rcases Nat.lt_or_ge b.toNat 0x80 with h | h
  · exact .inl ⟨h, begin_ascii h⟩
  by_cases hbad : b.toNat < 0xC2 ∨ 0xF5 ≤ b.toNat
  · exact .inr (.inl ⟨h, begin_bad h hbad⟩)
  refine .inr (.inr ⟨h, ?_⟩)
  rcases Nat.lt_or_ge b.toNat 0xE0 with h2 | h2
  · refine ⟨_, _, _, _, ?_, begin_two (by omega) h2⟩
    simp [Inside, Scalars]
    omega
  rcases Nat.lt_or_ge b.toNat 0xF0 with h3 | h3
  · refine ⟨_, _, _, _, ?_, begin_three h2 h3⟩
    simp only [Inside, Scalars]
    split_ifs <;> simp <;> omega
  · refine ⟨_, _, _, _, ?_, begin_four h3 (by omega)⟩
    simp only [Inside, Scalars]
    split_ifs <;> simp <;> omega

/-- Everything that a byte can do: end what was begun and begin anew, complete a character, or bring
it further. -/
theorem feed_cases {s : State} (hs : s.Sound) (b : UInt8) :
    feed s b = (flush s ++ (begin b).1, (begin b).2) ∨
    (0x80 ≤ b.toNat ∧ ∃ c : Char, 0x80 ≤ c.toNat ∧ feed s b = ([some c], .start)) ∨
    (0x80 ≤ b.toNat ∧ ∃ left low high bits, Inside left low high bits ∧
      feed s b = ([], .inside left low high bits)) := by
  cases s with
  | start => exact .inl rfl
  | inside left low high bits =>
    by_cases h : low.toNat ≤ b.toNat ∧ b.toNat ≤ high.toNat
    · obtain ⟨hleft, hlow, hhigh, hs⟩ := hs
      refine .inr ?_
      rcases hleft with rfl | rfl | rfl
      · refine .inl ⟨by omega, _, ?_, feed_inside h.1 h.2⟩
        simp only [Nat.sub_self, Nat.pow_zero, Nat.mul_one] at hs
        rw [hs.toNat_ofNat (by omega) (by omega)]
        exact Nat.le_trans hs.1 (by omega)
      all_goals
        refine .inr ⟨by omega, _, _, _, _, ?_, feed_inside h.1 h.2⟩
        simp [Inside, Scalars] at hs ⊢
        omega
    · exact .inl (feed_inside_of_not h)

theorem State.Sound.feed {s : State} (hs : s.Sound) (b : UInt8) : (Utf8.feed s b).2.Sound := by
  have hbegin : (begin b).2.Sound := by
    rcases begin_cases b with ⟨_, h⟩ | ⟨_, h⟩ | ⟨_, left, low, high, bits, hi, h⟩ <;> rw [h]
    · trivial
    · trivial
    · exact hi
  rcases feed_cases hs b with h | ⟨_, c, _, h⟩ | ⟨_, left, low, high, bits, hi, h⟩ <;> rw [h]
  · exact hbegin
  · trivial
  · exact hi

/-! ## ASCII characters come from ASCII bytes -/

/-- An ASCII character is completed by its own byte. -/
theorem toNat_eq_of_mem_feed {s : State} (hs : s.Sound) {b : UInt8} {c : Char}
    (hc : some c ∈ (feed s b).1) (hascii : c.toNat < 0x80) : b.toNat = c.toNat := by
  have hflush : some c ∉ flush s := by cases s <;> simp [flush]
  rcases feed_cases hs b with h | ⟨_, d, hd, h⟩ | ⟨_, left, low, high, bits, _, h⟩
  · rw [h, List.mem_append, or_iff_right hflush] at hc
    rcases begin_cases b with ⟨hb, h⟩ | ⟨_, h⟩ | ⟨_, left, low, high, bits, _, h⟩ <;> rw [h] at hc
    · obtain rfl : c = Char.ofNat b.toNat := by simpa using hc
      exact (toNat_ofNat_of_valid (.inl (by omega))).symm
    · simp at hc
    · simp at hc
  · obtain rfl : c = d := by simpa [h] using hc
    omega
  · simp [h] at hc

theorem mem_of_mem_scan {s : State} (hs : s.Sound) {bs : List UInt8} {c : Char}
    (hc : some c ∈ scan s bs) (hascii : c.toNat < 0x80) : ∃ b ∈ bs, b.toNat = c.toNat := by
  induction bs generalizing s with
  | nil => cases s <;> simp [scan, flush] at hc
  | cons b bs ih =>
    rw [scan, List.mem_append] at hc
    rcases hc with hc | hc
    · exact ⟨b, List.mem_cons_self, toNat_eq_of_mem_feed hs hc hascii⟩
    · obtain ⟨b', hb', he⟩ := ih (hs.feed b) hc
      exact ⟨b', List.mem_cons_of_mem b hb', he⟩

/-- An ASCII character of the text is a byte of the input. -/
theorem mem_of_mem_decodeLossy {bs : List UInt8} {c : Char} (hc : c ∈ decodeLossy bs)
    (hascii : c.toNat < 0x80) : ∃ b ∈ bs, b.toNat = c.toNat := by
  obtain ⟨o, ho, hoc⟩ := List.mem_map.1 hc
  cases o with
  | none =>
    have hmark : c.toNat = 0xFFFD := congrArg Char.toNat hoc.symm
    omega
  | some d =>
    obtain rfl : d = c := hoc
    exact mem_of_mem_scan (s := .start) trivial ho hascii

/-! ## An ASCII byte is decoded by itself -/

/-- An ASCII byte ends what was begun and is a character of its own. -/
theorem feed_ascii {s : State} (hs : s.Sound) {a : UInt8} (ha : a.toNat < 0x80) :
    feed s a = (flush s ++ [some (Char.ofNat a.toNat)], .start) := by
  rcases feed_cases hs a with h | ⟨hge, _⟩ | ⟨hge, _⟩
  · rw [h, begin_ascii ha]
  · omega
  · omega

theorem scan_append_ascii {s : State} (hs : s.Sound) (bs : List UInt8) {a : UInt8}
    (ha : a.toNat < 0x80) (rest : List UInt8) :
    scan s (bs ++ a :: rest) = scan s bs ++ some (Char.ofNat a.toNat) :: scan .start rest := by
  induction bs generalizing s with
  | nil =>
    simp only [List.nil_append, scan, feed_ascii hs ha, List.append_assoc, List.singleton_append]
  | cons b bs ih => rw [List.cons_append, scan, scan, ih (hs.feed b), List.append_assoc]

/-- The texts before and behind an ASCII byte are decoded apart. -/
theorem decodeLossy_append_ascii (bs : List UInt8) {a : UInt8} (ha : a.toNat < 0x80)
    (rest : List UInt8) :
    decodeLossy (bs ++ a :: rest) =
      decodeLossy bs ++ Char.ofNat a.toNat :: decodeLossy rest := by
  have h := scan_append_ascii (s := .start) trivial bs ha rest
  simp only [decodeLossy, h, List.map_append, List.map_cons, Option.getD_some]

/-! ## No bytes are lost -/

theorem scan_ne_nil {s : State} (hs : s.Sound) {bs : List UInt8} (h : s ≠ .start ∨ bs ≠ []) :
    scan s bs ≠ [] := by
  induction bs generalizing s with
  | nil => cases s <;> simp [scan, flush] at h ⊢
  | cons b bs ih =>
    -- A byte that gives nothing by itself leaves the decoder inside a character.
    have hfeed : (feed s b).1 ≠ [] ∨ (feed s b).2 ≠ .start := by
      rcases feed_cases hs b with h | ⟨_, c, _, h⟩ | ⟨_, left, low, high, bits, _, h⟩ <;> rw [h]
      · rcases begin_cases b with ⟨_, h⟩ | ⟨_, h⟩ | ⟨_, left, low, high, bits, _, h⟩ <;> simp [h]
      · simp
      · simp
    rw [scan]
    intro he
    obtain ⟨h1, h2⟩ := List.append_eq_nil_iff.1 he
    exact ih (hs.feed b) (.inl (hfeed.resolve_left (not_not_intro h1))) h2

/-- Some bytes give some text. -/
theorem decodeLossy_ne_nil {bs : List UInt8} (h : bs ≠ []) : decodeLossy bs ≠ [] := by
  have hscan : scan .start bs ≠ [] := scan_ne_nil (s := .start) trivial (.inr h)
  simpa [decodeLossy] using hscan

/-! ## Encoded texts -/

theorem toNat_byte {n : ℕ} (h : n < 256) : (UInt8.ofNat n).toNat = n := by
  rw [UInt8.toNat_ofNat']
  exact Nat.mod_eq_of_lt h

theorem scan_of_begin {b : UInt8} {s : State} (h : begin b = ([], s)) (bs : List UInt8) :
    scan .start (b :: bs) = scan s bs := by
  rw [scan, feed, h, List.nil_append]

/-- A byte that is not the last one of its character. -/
theorem scan_inside_more {left bits : ℕ} {low high b : UInt8} (hlow : low.toNat ≤ b.toNat)
    (hhigh : b.toNat ≤ high.toNat) (bs : List UInt8) :
    scan (.inside (left + 2) low high bits) (b :: bs) =
      scan (.inside (left + 1) 0x80 0xBF (bits * 64 + (b.toNat - 0x80))) bs := by
  rw [scan, feed_inside hlow hhigh, if_neg (by omega), List.nil_append,
    Nat.add_sub_assoc (by omega)]

/-- The last byte of a character. -/
theorem scan_inside_one {bits : ℕ} {low high b : UInt8} (hlow : low.toNat ≤ b.toNat)
    (hhigh : b.toNat ≤ high.toNat) (bs : List UInt8) :
    scan (.inside 1 low high bits) (b :: bs) =
      some (Char.ofNat (bits * 64 + (b.toNat - 0x80))) :: scan .start bs := by
  rw [scan, feed_inside hlow hhigh, if_pos (Nat.le_refl 1), List.singleton_append]

/-- The bytes of a character give that character. -/
theorem scan_encodeChar (c : Char) (bs : List UInt8) :
    scan .start (String.utf8EncodeChar c ++ bs) = some c :: scan .start bs := by
  have hvalid : c.toNat < 0xD800 ∨ 0xDFFF < c.toNat ∧ c.toNat < 0x110000 := c.valid
  have hc {n : ℕ} (h : n = c.toNat) : Char.ofNat n = c := by rw [h, Char.ofNat_toNat]
  unfold String.utf8EncodeChar
  simp only [Char.toNat_val]
  generalize c.toNat = v at hvalid hc ⊢
  have hlow (w : ℕ) : (UInt8.ofNat (w % 0x40 + 0x80)).toNat = w % 0x40 + 0x80 :=
    toNat_byte (by omega)
  have hlast := hlow v
  have hthird := hlow (v / 64)
  have hsecond := hlow (v / 4096)
  -- One case for each number of bytes.  The last bytes carry six bits each, and the first one what
  -- is left above them, which the bounds of the case keep below the modulus.
  split_ifs with h1 h2 h3
  · have hb : (UInt8.ofNat v).toNat = v := toNat_byte (by omega)
    rw [List.singleton_append, scan, feed, begin_ascii (by omega), hb, hc rfl]
    rfl
  · have hfirst : (UInt8.ofNat (v / 64 % 0x20 + 0xC0)).toNat = v / 64 + 0xC0 := by
      rw [toNat_byte (by omega)]
      omega
    simp only [List.cons_append, List.nil_append]
    rw [scan_of_begin (begin_two (by omega) (by omega)),
      scan_inside_one (by simp; omega) (by simp; omega), hc (by omega)]
  · have hfirst : (UInt8.ofNat (v / 4096 % 0x10 + 0xE0)).toNat = v / 4096 + 0xE0 := by
      rw [toNat_byte (by omega)]
      omega
    simp only [List.cons_append, List.nil_append]
    rw [scan_of_begin (begin_three (by omega) (by omega)),
      scan_inside_more (by split_ifs <;> simp <;> omega) (by split_ifs <;> simp <;> omega),
      scan_inside_one (by simp; omega) (by simp; omega), hc (by omega)]
  · have hfirst : (UInt8.ofNat (v / 262144 % 0x08 + 0xF0)).toNat = v / 262144 + 0xF0 := by
      rw [toNat_byte (by omega)]
      omega
    simp only [List.cons_append, List.nil_append]
    rw [scan_of_begin (begin_four (by omega) (by omega)),
      scan_inside_more (by split_ifs <;> simp <;> omega) (by split_ifs <;> simp <;> omega),
      scan_inside_more (by simp; omega) (by simp; omega),
      scan_inside_one (by simp; omega) (by simp; omega), hc (by omega)]

theorem scan_encode (cs : List Char) : scan .start (encode cs) = cs.map some := by
  induction cs with
  | nil => rfl
  | cons c cs ih => rw [encode, List.flatMap_cons, scan_encodeChar, ← encode, ih, List.map_cons]

/-- The bytes of a text are decoded to that text. -/
theorem decodeLossy_encode (cs : List Char) : decodeLossy (encode cs) = cs := by
  simp [decodeLossy, scan_encode, Function.comp_def]

end HotFrames.Utf8

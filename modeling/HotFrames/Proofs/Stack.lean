import HotFrames.Proofs.Text.Parts
import HotFrames.Stack

/-!
# Stacks and their lines

The line of a stack is read back as that stack (`Stack.parse?_line`) if its frames hold no separator
and the line begins with what is no blank (`Stack.Writable`).  Then trimming takes nothing off the
line: it begins with no blank by assumption, and it ends in a digit.  The last space is the one in
front of the count, since digits are no spaces, however many spaces the frames hold.
-/

namespace HotFrames

namespace Blank

theorem isBlank_of_isDigit {c : Char} (h : c.isDigit) : isBlank c = false := by
  simp only [Char.isDigit, ge_iff_le, Bool.and_eq_true, decide_eq_true_eq,
    UInt32.le_iff_toNat_le] at h
  have hlow : 48 ≤ c.toNat := h.1
  have hhigh : c.toNat ≤ 57 := h.2
  simp [isBlank, ranges]
  omega

theorem dropWhile_isBlank_eq_self {c : Char} {cs : List Char} (h : cs.head? = some c)
    (hc : isBlank c = false) : cs.dropWhile isBlank = cs := by
  obtain ⟨rest, rfl⟩ := List.head?_eq_some_iff.1 h
  exact List.dropWhile_cons_of_neg (by simp [hc])

/-- Nothing is taken off a text without a blank at either end. -/
theorem trim_eq_self {first last : Char} {cs : List Char} (hfirst : cs.head? = some first)
    (hlast : cs.getLast? = some last) (h : isBlank first = false) (h' : isBlank last = false) :
    trim cs = cs := by
  rw [trim, dropWhile_isBlank_eq_self hfirst h,
    dropWhile_isBlank_eq_self (List.head?_reverse.trans hlast) h', List.reverse_reverse]

/-- Nothing is left of a text that is blank throughout, and of no other. -/
theorem trim_eq_nil_iff {cs : List Char} : trim cs = [] ↔ ∀ c ∈ cs, isBlank c := by
  rw [trim, List.reverse_eq_nil_iff, List.dropWhile_eq_nil_iff]
  constructor
  · intro h c hc
    rw [← List.takeWhile_append_dropWhile (p := isBlank) (l := cs), List.mem_append] at hc
    exact hc.elim List.mem_takeWhile_imp fun hrest => h c (List.mem_reverse.2 hrest)
  · intro h c hc
    exact h c ((List.dropWhile_suffix _).subset (List.mem_reverse.1 hc))

end Blank

namespace Stack

theorem isBlankLine_eq_all (line : String) :
    isBlankLine line = line.toList.all Blank.isBlank := by
  rw [Bool.eq_iff_iff, isBlankLine, List.isEmpty_iff, List.all_eq_true, Blank.trim_eq_nil_iff]

/-- Whether a stack can be written on a line.  It has frames, none of which holds a separator of
frames or of lines, and joined they begin with a character that is no blank. -/
structure Writable (s : Stack) : Prop where
  frames_ne_nil : s.frames ≠ []
  not_mem : ∀ frame ∈ s.frames, ';' ∉ frame.toList ∧ '\n' ∉ frame.toList ∧ '\r' ∉ frame.toList
  first : ∃ c, (";".intercalate s.frames).toList.head? = some c ∧ Blank.isBlank c = false

/-- The characters of the count of a stack. -/
def countDigits (s : Stack) : List Char := Nat.toDigits 10 s.count.val

theorem isDigit_of_mem_countDigits {s : Stack} {c : Char} (h : c ∈ s.countDigits) : c.isDigit :=
  Nat.isDigit_of_mem_toDigits (by decide) (by decide) h

theorem countDigits_ne_nil (s : Stack) : s.countDigits ≠ [] := by
  have h := Numeral.isNumeral_toDigits s.count.val
  simp only [Numeral.isNumeral, Bool.and_eq_true, Bool.not_eq_true', List.isEmpty_eq_false_iff] at h
  exact h.1

theorem toList_line (s : Stack) :
    s.line.toList = (";".intercalate s.frames).toList ++ ' ' :: s.countDigits := by
  simp [line, Nat.repr, countDigits]

theorem readCount?_countDigits (s : Stack) : readCount? s.countDigits = some s.count := by
  have hplus : Numeral.dropPlus s.countDigits = s.countDigits := by
    unfold Numeral.dropPlus
    split
    · next cs h =>
      have hdigit : ('+').isDigit := isDigit_of_mem_countDigits (h ▸ List.mem_cons_self)
      exact absurd hdigit (by decide)
    · rfl
  rw [readCount?, Numeral.readSigned?, hplus, countDigits, Numeral.read?_toDigits s.count.lt]
  exact Samples.ofNat?_eq_some_iff.2 rfl

theorem splitFrames_intercalate {frames : List String} (hne : frames ≠ [])
    (h : ∀ frame ∈ frames, ';' ∉ frame.toList) :
    splitFrames (";".intercalate frames).toList = frames :=
  splitOn_toList_intercalate rfl hne h

section First

variable {s : Stack} (h : ∃ c, (";".intercalate s.frames).toList.head? = some c ∧
  Blank.isBlank c = false)
include h

theorem head?_line_of_first : ∃ c, s.line.toList.head? = some c ∧ Blank.isBlank c = false := by
  obtain ⟨c, hc, hblank⟩ := h
  exact ⟨c, by rw [toList_line, List.head?_append, hc, Option.some_or], hblank⟩

/-- A line that begins with what is no blank is left as it is, since it ends in a digit. -/
theorem trim_line_of_first : Blank.trim s.line.toList = s.line.toList := by
  obtain ⟨first, hfirst, hblank⟩ := head?_line_of_first h
  have hlast : s.line.toList.getLast? = some (s.countDigits.getLast s.countDigits_ne_nil) := by
    rw [toList_line, List.getLast?_append_of_ne_nil _ (List.cons_ne_nil _ _),
      List.getLast?_cons, List.getLast?_eq_getLast_of_ne_nil s.countDigits_ne_nil]
    rfl
  have hdigit := isDigit_of_mem_countDigits (List.getLast_mem s.countDigits_ne_nil)
  exact Blank.trim_eq_self hfirst hlast hblank (Blank.isBlank_of_isDigit hdigit)

end First

namespace Writable

variable {s : Stack}

theorem head?_line (h : s.Writable) :
    ∃ c, s.line.toList.head? = some c ∧ Blank.isBlank c = false := head?_line_of_first h.first

/-- No terminator stands inside the line. -/
theorem not_mem_line (h : s.Writable) : '\n' ∉ s.line.toList ∧ '\r' ∉ s.line.toList := by
  have hline {c : Char} (hsep : c ∉ [';']) (hspace : c ≠ ' ') (hdigit : ¬ c.isDigit)
      (hframes : ∀ frame ∈ s.frames, c ∉ frame.toList) : c ∉ s.line.toList := by
    rw [toList_line, String.toList_intercalate, List.mem_append, List.mem_cons]
    rintro (hmem | rfl | hmem)
    · obtain hmem | ⟨l, hl, hc⟩ := mem_of_mem_intercalate hmem
      · exact hsep hmem
      · obtain ⟨frame, hframe, rfl⟩ := List.mem_map.1 hl
        exact hframes frame hframe hc
    · exact hspace rfl
    · exact hdigit (isDigit_of_mem_countDigits hmem)
  exact ⟨hline (by decide) (by decide) (by decide) fun f hf => (h.not_mem f hf).2.1,
    hline (by decide) (by decide) (by decide) fun f hf => (h.not_mem f hf).2.2⟩

end Writable

/-- The parts of a line that is read as a stack. -/
theorem parse?_eq_some_iff {line : String} {s : Stack} :
    parse? line = some s ↔ ∃ joined token,
      (Blank.trim line.toList = joined ++ ' ' :: token ∧ ' ' ∉ token) ∧
        readCount? token = some s.count ∧ splitFrames joined = s.frames := by
  simp only [← cutLast_eq_some_iff]
  rw [parse?]
  constructor
  · intro h
    split at h
    · cases h
    · next joined token hcut =>
      obtain ⟨count, hcount, rfl⟩ := Option.map_eq_some_iff.1 h
      exact ⟨joined, token, hcut, hcount, rfl⟩
  · rintro ⟨joined, token, hcut, hcount, hframes⟩
    rw [hcut]
    simp only [hcount, hframes, Option.map_some]

theorem eq_plus_or_isDigit_of_mem {token : List Char} {count : Samples} {c : Char}
    (h : readCount? token = some count) (hmem : c ∈ token) : c = '+' ∨ c.isDigit := by
  obtain ⟨n, hn, -⟩ := Option.bind_eq_some_iff.1 h
  have hnumeral := (Numeral.read?_eq_some_iff.1 hn).1
  rw [Numeral.isNumeral, Bool.and_eq_true, List.all_eq_true] at hnumeral
  have hdigits : ∀ d ∈ Numeral.dropPlus token, d.isDigit := hnumeral.2
  unfold Numeral.dropPlus at hdigits
  split at hdigits
  · exact (List.mem_cons.1 hmem).imp_right (hdigits c)
  · exact .inr (hdigits c hmem)

/-- **The line of a stack is read back as that stack** if it begins with what is no blank and no frame
holds a semicolon. -/
theorem parse?_line_of_first {s : Stack} (hne : s.frames ≠ [])
    (hframes : ∀ frame ∈ s.frames, ';' ∉ frame.toList)
    (hfirst : ∃ c, (";".intercalate s.frames).toList.head? = some c ∧ Blank.isBlank c = false) :
    parse? s.line = some s := by
  have hspace : ' ' ∉ s.countDigits := fun hmem =>
    absurd (isDigit_of_mem_countDigits hmem) (by decide)
  have hcut : cutLast ' ' (Blank.trim s.line.toList) =
      some ((";".intercalate s.frames).toList, s.countDigits) := by
    rw [trim_line_of_first hfirst]
    exact cutLast_eq_some_iff.2 ⟨s.toList_line, hspace⟩
  rw [parse?, hcut]
  simp only [readCount?_countDigits, Option.map_some, splitFrames_intercalate hne hframes]

theorem parse?_line {s : Stack} (h : s.Writable) : parse? s.line = some s :=
  parse?_line_of_first h.frames_ne_nil (fun frame hframe => (h.not_mem frame hframe).1) h.first

end Stack

end HotFrames

import HotFrames.Proofs.Stack

/-!
# The grammar of stack lines

Which lines are read as stacks, and as which.  Between its blanks such a line spells the stack
(`Stack.Spells`): the frames with semicolons between them, a space, and the count in decimal digits,
which one plus sign may precede.  Everything else is no stack (`Stack.parse?_eq_some_iff_spells`).
The frames keep all semicolons of the line (`Stack.Spells.count_semicolon`), and the written line of
a stack is read back just if its frames can be told apart again and no blank is lost in front of
them (`Stack.parse?_line_eq_some_iff`).
-/

namespace HotFrames

namespace Blank

/-- Trimming takes blanks off both ends and nothing else. -/
theorem exists_trim (cs : List Char) :
    ∃ before after, cs = before ++ (trim cs ++ after) ∧ (∀ c ∈ before, isBlank c) ∧
      ∀ c ∈ after, isBlank c := by
  refine ⟨cs.takeWhile isBlank, ((cs.dropWhile isBlank).reverse.takeWhile isBlank).reverse, ?_,
    fun c hc => List.mem_takeWhile_imp hc,
    fun c hc => List.mem_takeWhile_imp (List.mem_reverse.1 hc)⟩
  rw [trim, ← List.reverse_append, List.takeWhile_append_dropWhile, List.reverse_reverse,
    List.takeWhile_append_dropWhile]

/-- What trimming leaves does not begin with a blank. -/
theorem isBlank_of_head?_trim {cs : List Char} {c : Char} (h : (trim cs).head? = some c) :
    isBlank c = false := by
  -- What is left after both ends are trimmed is the front of what is left after the first.
  have hfront : trim cs <+: cs.dropWhile isBlank := by
    rw [trim, ← List.reverse_suffix, List.reverse_reverse]
    exact List.dropWhile_suffix _
  obtain ⟨rest, hrest⟩ := hfront
  have hhead : (cs.dropWhile isBlank).head? = some c := by
    rw [← hrest, List.head?_append, h, Option.some_or]
  have hstop := List.head?_dropWhile_not isBlank cs
  rw [hhead] at hstop
  simpa using hstop

theorem count_trim {c : Char} (hc : isBlank c = false) (cs : List Char) :
    (trim cs).count c = cs.count c := by
  have hnone {blanks : List Char} (h : ∀ b ∈ blanks, isBlank b) : blanks.count c = 0 :=
    List.count_eq_zero.2 fun hmem => by simp [h c hmem] at hc
  obtain ⟨before, after, hcs, hbefore, hafter⟩ := exists_trim cs
  conv_rhs => rw [hcs, List.count_append, List.count_append, hnone hbefore, hnone hafter]
  omega

end Blank

namespace Stack

/-- Whether a text spells some frames and a count: the frames with semicolons between them, which
none of them holds, a space, and the count in decimal digits, which one plus sign may precede. -/
def Spells (text : List Char) (frames : List String) (count : ℕ) : Prop :=
  ∃ joined plus digits : List Char,
    text = joined ++ ' ' :: (plus ++ digits) ∧
    (plus = [] ∨ plus = ['+']) ∧
    (digits ≠ [] ∧ (∀ c ∈ digits, c.isDigit) ∧ Numeral.value digits = count) ∧
    frames ≠ [] ∧ (∀ frame ∈ frames, ';' ∉ frame.toList) ∧
    joined = (";".intercalate frames).toList

/-! ## Counts -/

theorem dropPlus_append {plus digits : List Char} (hplus : plus = [] ∨ plus = ['+'])
    (hdigits : ∀ c ∈ digits, c.isDigit) : Numeral.dropPlus (plus ++ digits) = digits := by
  rcases hplus with rfl | rfl
  · rw [List.nil_append]
    unfold Numeral.dropPlus
    split
    · next cs => exact absurd (hdigits '+' List.mem_cons_self) (by decide)
    · rfl
  · rfl

theorem exists_dropPlus (token : List Char) :
    ∃ plus, token = plus ++ Numeral.dropPlus token ∧ (plus = [] ∨ plus = ['+']) := by
  unfold Numeral.dropPlus
  split
  · exact ⟨['+'], rfl, .inr rfl⟩
  · exact ⟨[], rfl, .inl rfl⟩

theorem isNumeral_iff {digits : List Char} :
    Numeral.isNumeral digits ↔ digits ≠ [] ∧ ∀ c ∈ digits, c.isDigit := by
  rw [Numeral.isNumeral, Bool.and_eq_true, List.all_eq_true, Bool.not_eq_true',
    List.isEmpty_eq_false_iff]

/-- A count is read from decimal digits, which one plus sign may precede. -/
theorem readCount?_eq_some_iff {token : List Char} {count : Samples} :
    readCount? token = some count ↔ ∃ plus digits, token = plus ++ digits ∧
      (plus = [] ∨ plus = ['+']) ∧ digits ≠ [] ∧ (∀ c ∈ digits, c.isDigit) ∧
      Numeral.value digits = count.val := by
  have hread : readCount? token = some count ↔
      Numeral.isNumeral (Numeral.dropPlus token) ∧
        Numeral.value (Numeral.dropPlus token) = count.val := by
    simp only [readCount?, Numeral.readSigned?, Option.bind_eq_some_iff, Numeral.read?_eq_some_iff,
      Samples.ofNat?_eq_some_iff]
    constructor
    · rintro ⟨n, ⟨hnumeral, hvalue, -⟩, hcount⟩
      exact ⟨hnumeral, hvalue.trans hcount.symm⟩
    · rintro ⟨hnumeral, hvalue⟩
      exact ⟨count.val, ⟨hnumeral, hvalue, count.lt⟩, rfl⟩
  rw [hread]
  constructor
  · rintro ⟨hnumeral, hvalue⟩
    obtain ⟨hne, hdigits⟩ := isNumeral_iff.1 hnumeral
    obtain ⟨plus, htoken, hplus⟩ := exists_dropPlus token
    exact ⟨plus, _, htoken, hplus, hne, hdigits, hvalue⟩
  · rintro ⟨plus, digits, rfl, hplus, hne, hdigits, hvalue⟩
    rw [dropPlus_append hplus hdigits]
    exact ⟨isNumeral_iff.2 ⟨hne, hdigits⟩, hvalue⟩

/-! ## Frames -/

/-- Frames are what a joined text is cut into just if they are its parts between semicolons. -/
theorem splitFrames_eq_iff {joined : List Char} {frames : List String} :
    splitFrames joined = frames ↔ frames ≠ [] ∧ (∀ frame ∈ frames, ';' ∉ frame.toList) ∧
      joined = (";".intercalate frames).toList := by
  constructor
  · rintro rfl
    refine ⟨by simp [splitFrames, List.splitOn_ne_nil], fun frame hframe => ?_, ?_⟩
    · obtain ⟨part, hpart, rfl⟩ := List.mem_map.1 hframe
      rw [String.toList_ofList]
      exact not_mem_of_mem_splitOn hpart
    · rw [splitFrames, String.toList_intercalate, List.map_map]
      simp [Function.comp_def]
  · rintro ⟨hne, hframes, rfl⟩
    exact splitFrames_intercalate hne hframes

/-! ## Lines -/

theorem parse?_eq_some_iff_spells {line : String} {s : Stack} :
    parse? line = some s ↔ Spells (Blank.trim line.toList) s.frames s.count.val := by
  rw [parse?_eq_some_iff]
  constructor
  · rintro ⟨joined, token, ⟨htext, -⟩, hcount, hframes⟩
    obtain ⟨plus, digits, rfl, hplus, hdigits⟩ := readCount?_eq_some_iff.1 hcount
    exact ⟨joined, plus, digits, htext, hplus, hdigits, splitFrames_eq_iff.1 hframes⟩
  · rintro ⟨joined, plus, digits, htext, hplus, hdigits, hframes⟩
    have hcount := readCount?_eq_some_iff.2 ⟨plus, digits, rfl, hplus, hdigits⟩
    refine ⟨joined, plus ++ digits, ⟨htext, fun hspace => ?_⟩, hcount,
      splitFrames_eq_iff.2 hframes⟩
    exact (eq_plus_or_isDigit_of_mem hcount hspace).elim (by decide) (by decide)

namespace Spells

variable {line : String} {frames : List String} {count : ℕ}

/-- The frames of a trimmed line begin with what is no blank. -/
theorem first (h : Spells (Blank.trim line.toList) frames count) :
    ∃ c, (";".intercalate frames).toList.head? = some c ∧ Blank.isBlank c = false := by
  obtain ⟨joined, plus, digits, htext, -, -, -, -, rfl⟩ := h
  have hhead {c : Char} (hc : (Blank.trim line.toList).head? = some c) : Blank.isBlank c = false :=
    Blank.isBlank_of_head?_trim hc
  cases hjoined : (";".intercalate frames).toList with
  | nil =>
    -- The space in front of the count would have been trimmed off.
    rw [htext, hjoined] at hhead
    exact absurd (hhead rfl) (by decide)
  | cons c rest =>
    rw [htext, hjoined] at hhead
    exact ⟨c, rfl, hhead rfl⟩

/-- Every semicolon of a line stands between two frames. -/
theorem count_semicolon (h : Spells (Blank.trim line.toList) frames count) :
    line.toList.count ';' + 1 = frames.length := by
  obtain ⟨joined, plus, digits, htext, hplus, ⟨-, hdigits, -⟩, hne, hframes, rfl⟩ := h
  have hdigit : ';' ∉ digits := fun hmem => absurd (hdigits ';' hmem) (by decide)
  have hsign : ';' ∉ plus := by
    rcases hplus with rfl | rfl <;> decide
  have htoken : (' ' :: (plus ++ digits)).count ';' = 0 := by
    rw [List.count_eq_zero]
    simp [hsign, hdigit]
  have hsplit : ([';'].intercalate (frames.map String.toList)).count ';' + 1 = frames.length := by
    rw [count_intercalate_add_one (by simpa using hne) (by simpa using hframes), List.length_map]
  rw [← Blank.count_trim (by decide) line.toList, htext, List.count_append, htoken,
    String.toList_intercalate]
  exact hsplit

end Spells

/-- The line of a stack is read back just if its frames can be told apart again and begin with what
is no blank. -/
theorem parse?_line_eq_some_iff {s : Stack} :
    parse? s.line = some s ↔ s.frames ≠ [] ∧ (∀ frame ∈ s.frames, ';' ∉ frame.toList) ∧
      ∃ c, (";".intercalate s.frames).toList.head? = some c ∧ Blank.isBlank c = false := by
  constructor
  · intro h
    have hspells := parse?_eq_some_iff_spells.1 h
    have hfirst := hspells.first
    obtain ⟨-, -, -, -, -, -, hne, hframes, -⟩ := hspells
    exact ⟨hne, hframes, hfirst⟩
  · rintro ⟨hne, hframes, hfirst⟩
    exact parse?_line_of_first hne hframes hfirst

/-- **A line is read as a stack just if it spells one** when the blanks around it are taken off, and
a count out of range spells none.  The stack has the frames and the count that are spelled: the text
in front of the count is not empty, and it has one frame more than the line has semicolons.  So the
written line of a stack is read back as that stack just if there are frames, none of which holds a
semicolon, and joined they begin with a character that is no blank. -/
theorem parse?_iff_spelled (line : String) :
    (∀ s, parse? line = some s ↔ Spells (Blank.trim line.toList) s.frames s.count.val) ∧
    (parse? line = none ↔
      ∀ frames count, Spells (Blank.trim line.toList) frames count → Samples.bound ≤ count) ∧
    (∀ s, parse? line = some s →
      ";".intercalate s.frames ≠ "" ∧ s.frames.length = line.toList.count ';' + 1) ∧
    ∀ s : Stack, parse? s.line = some s ↔
      s.frames ≠ [] ∧ (∀ frame ∈ s.frames, ';' ∉ frame.toList) ∧
        ∃ c, (";".intercalate s.frames).toList.head? = some c ∧ Blank.isBlank c = false := by
  refine ⟨fun s => parse?_eq_some_iff_spells, ?_, fun s hs => ?_, fun s => parse?_line_eq_some_iff⟩
  · constructor
    · intro hnone frames count hspells
      by_contra hlt
      have hsome : parse? line = some ⟨frames, ⟨count, Nat.lt_of_not_le hlt⟩⟩ :=
        parse?_eq_some_iff_spells.2 hspells
      rw [hnone] at hsome
      cases hsome
    · intro hbeyond
      cases hs : parse? line with
      | none => rfl
      | some s =>
        exact absurd s.count.lt (Nat.not_lt.2 (hbeyond _ _ (parse?_eq_some_iff_spells.1 hs)))
  · have hspells := parse?_eq_some_iff_spells.1 hs
    refine ⟨fun hempty => ?_, hspells.count_semicolon.symm⟩
    obtain ⟨c, hc, -⟩ := hspells.first
    rw [hempty] at hc
    cases hc

/-- Wide blanks around the line, spaces and an empty name in the frames, a plus sign and leading
zeros. -/
theorem parse?_iff_spelled_wide_blanks :
    let line := "\u00A0 a 1;; b\u3000 +007\u2003\t"
    let s : Stack := ⟨["a 1", "", " b\u3000"], ⟨7, by decide⟩⟩
    parse? line = some s ∧ s.frames.length = line.toList.count ';' + 1 := by
  intro line s
  have hspells : Spells (Blank.trim line.toList) s.frames s.count.val :=
    ⟨"a 1;; b\u3000".toList, ['+'], ['0', '0', '7'], by decide +kernel, .inr rfl,
      ⟨by decide, List.all_eq_true.1 rfl, rfl⟩, by decide, by decide +kernel, by decide +kernel⟩
  obtain ⟨hread, -, hframes, -⟩ := parse?_iff_spelled line
  have hs := (hread s).2 hspells
  exact ⟨hs, (hframes s hs).2⟩

end Stack

end HotFrames

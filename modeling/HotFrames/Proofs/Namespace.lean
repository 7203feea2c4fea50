import HotFrames.Namespace
import HotFrames.Proofs.Stack
import HotFrames.Proofs.Text.Occurs

/-!
# Markers in lines

A marker holds no blank and no separator of frames, and some letter of it stands in no count
(`Stack.IsName`).  So it occurs in the line of a stack just if it occurs in one of the frames
(`Stack.infix_line_iff`): the blanks around the line, the space in front of the count and the
semicolons cut no marker into pieces, and the count holds none.
-/

namespace HotFrames

namespace Stack

/-- Whether a word can only occur inside a frame of a line: it holds neither a blank nor a
semicolon, and it is no part of a count. -/
structure IsName (word : List Char) : Prop where
  isBlank : ∀ c ∈ word, Blank.isBlank c = false
  semicolon : ';' ∉ word
  letter : ∃ c ∈ word, c ≠ '+' ∧ ¬ c.isDigit

/-- A name occurs in the line of a stack just if it occurs in one of the frames. -/
theorem infix_line_iff {line : String} {s : Stack} {word : List Char} (hs : parse? line = some s)
    (hword : IsName word) :
    word <:+: line.toList ↔ ∃ frame ∈ s.frames, word <:+: frame.toList := by
  obtain ⟨joined, token, ⟨htrim, -⟩, hcount, hframes⟩ := parse?_eq_some_iff.1 hs
  have hspace : ' ' ∉ word := fun hmem => absurd (hword.isBlank _ hmem) (by decide)
  have htoken : ¬ word <:+: token := by
    intro hoccurs
    obtain ⟨c, hc, hplus, hdigit⟩ := hword.letter
    exact (eq_plus_or_isDigit_of_mem hcount (hoccurs.subset hc)).elim hplus hdigit
  rw [← Blank.infix_trim_iff hword.isBlank, htrim, infix_append_cons_iff hspace, or_iff_left htoken,
    infix_iff_exists_splitOn hword.semicolon, ← hframes, splitFrames]
  simp

end Stack

namespace Namespace

/-- Whether a text contains a marker of a namespace. -/
def OccursIn (n : Namespace) (text : String) : Prop :=
  ∃ marker ∈ n.markers, marker.toList <:+: text.toList

instance (n : Namespace) (text : String) : Decidable (n.OccursIn text) :=
  inferInstanceAs (Decidable (∃ marker ∈ n.markers, marker.toList <:+: text.toList))

theorem isName_of_mem_markers {n : Namespace} {marker : String} (h : marker ∈ n.markers) :
    Stack.IsName marker.toList := by
  have hall : (n.markers.all fun marker =>
      (marker.toList.all fun c => !Blank.isBlank c) && !marker.toList.contains ';' &&
        marker.toList.contains '/') = true := by
    cases n <;> decide +kernel
  have hmarker := List.all_eq_true.1 hall marker h
  simp only [Bool.and_eq_true, List.all_eq_true, Bool.not_eq_true', List.contains_eq_mem,
    decide_eq_true_eq, decide_eq_false_iff_not] at hmarker
  obtain ⟨⟨hblank, hsemicolon⟩, hslash⟩ := hmarker
  exact ⟨hblank, hsemicolon, '/', hslash, by decide, by decide⟩

/-- A namespace occurs in the line of a stack just if it occurs in one of the frames. -/
theorem occursIn_line_iff {line : String} {s : Stack} (n : Namespace)
    (hs : Stack.parse? line = some s) : n.OccursIn line ↔ ∃ frame ∈ s.frames, n.OccursIn frame := by
  unfold OccursIn
  constructor
  · rintro ⟨marker, hmarker, hline⟩
    obtain ⟨frame, hframe, hoccurs⟩ :=
      (Stack.infix_line_iff hs (isName_of_mem_markers hmarker)).1 hline
    exact ⟨frame, hframe, marker, hmarker, hoccurs⟩
  · rintro ⟨frame, hframe, marker, hmarker, hoccurs⟩
    exact ⟨marker, hmarker,
      (Stack.infix_line_iff hs (isName_of_mem_markers hmarker)).2 ⟨frame, hframe, hoccurs⟩⟩

end Namespace

end HotFrames

import HotFrames.Text.Cut
import Mathlib

/-!
# Occurrences in the parts of a text

A word that holds no separator cannot straddle one: where it occurs in a text, it occurs in one of
the parts between separators (`infix_append_cons_iff`, `infix_iff_exists_splitOn`), and a word
without blanks occurs in what trimming leaves (`infix_trim_iff`).
-/

namespace HotFrames

section Separators

variable {α : Type} {sep : α} {word : List α}

theorem not_prefix_cons_of_not_mem (h : sep ∉ word) (hne : word ≠ []) (text : List α) :
    ¬ word <+: sep :: text := by
  rintro ⟨rest, hrest⟩
  obtain ⟨c, cs, rfl⟩ := List.exists_cons_of_ne_nil hne
  rw [List.cons_append, List.cons.injEq] at hrest
  exact h (hrest.1 ▸ List.mem_cons_self)

theorem infix_cons_iff_of_not_mem (h : sep ∉ word) (text : List α) :
    word <:+: sep :: text ↔ word <:+: text := by
  by_cases hne : word = []
  · simp [hne]
  · rw [List.infix_cons_iff, or_iff_right (not_prefix_cons_of_not_mem h hne text)]

/-- A word without the separator occurs on one side of it. -/
theorem infix_append_cons_iff (h : sep ∉ word) (before after : List α) :
    word <:+: before ++ sep :: after ↔ word <:+: before ∨ word <:+: after := by
  -- The part of a straddling word that is behind the cut would begin with the separator.
  have hstraddle : ¬ ∃ head tail, head ≠ [] ∧ tail ≠ [] ∧ word = head ++ tail ∧
      head <:+ before ∧ tail <+: sep :: after := by
    rintro ⟨head, tail, -, hne, rfl, -, htail⟩
    exact not_prefix_cons_of_not_mem (fun hmem => h (List.mem_append_right _ hmem)) hne after htail
  rw [List.infix_append_iff_ne_nil, or_iff_left hstraddle, infix_cons_iff_of_not_mem h]

variable [DecidableEq α]

/-- A word without the separator occurs in one of the parts between separators. -/
theorem infix_iff_exists_splitOn (h : sep ∉ word) (text : List α) :
    word <:+: text ↔ ∃ part ∈ text.splitOn sep, word <:+: part := by
  suffices hparts : ∀ parts : List (List α), parts ≠ [] →
      (word <:+: [sep].intercalate parts ↔ ∃ part ∈ parts, word <:+: part) by
    have htext := hparts _ (List.splitOn_ne_nil sep text)
    rwa [List.intercalate_splitOn] at htext
  intro parts hne
  induction parts with
  | nil => exact absurd rfl hne
  | cons part parts ih =>
    cases parts with
    | nil => simp
    | cons next parts =>
      rw [List.intercalate_cons_cons, List.append_assoc, List.singleton_append,
        infix_append_cons_iff h, ih (List.cons_ne_nil next parts),
        List.exists_mem_cons_iff _ part]

end Separators

namespace Blank

theorem infix_dropWhile_iff {word : List Char} (h : ∀ c ∈ word, isBlank c = false)
    (text : List Char) : word <:+: text.dropWhile isBlank ↔ word <:+: text := by
  induction text with
  | nil => rfl
  | cons c text ih =>
    cases hc : isBlank c with
    | false => rw [List.dropWhile_cons_of_neg (by simp [hc])]
    | true =>
      have hno : c ∉ word := fun hmem => by simp [h c hmem] at hc
      rw [List.dropWhile_cons_of_pos hc, ih, infix_cons_iff_of_not_mem hno]

/-- A word without blanks occurs in what trimming leaves. -/
theorem infix_trim_iff {word : List Char} (h : ∀ c ∈ word, isBlank c = false) (text : List Char) :
    word <:+: trim text ↔ word <:+: text := by
  have hreverse : ∀ c ∈ word.reverse, isBlank c = false := fun c hc => h c (List.mem_reverse.1 hc)
  rw [trim, ← List.reverse_infix, List.reverse_reverse, infix_dropWhile_iff hreverse,
    List.reverse_infix, infix_dropWhile_iff h]

end Blank

end HotFrames

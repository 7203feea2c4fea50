/-!
# Cutting texts

The parts of a list on the two sides of its last separator, and the text that is left when blanks,
the characters with the Unicode property White_Space, are taken off both ends.
-/

namespace HotFrames

/-! ### The last separator -/

/-- The parts before and after the last occurrence of a separator. -/
def cutLast {α : Type} [DecidableEq α] (sep : α) : List α → Option (List α × List α)
  | [] => none
  | c :: cs =>
    match cutLast sep cs with
    | some (before, after) => some (c :: before, after)
    | none => if c = sep then some ([], cs) else none

section CutLast

variable {α : Type} [DecidableEq α] {sep : α}

theorem cutLast_eq_none_iff {cs : List α} : cutLast sep cs = none ↔ sep ∉ cs := by
  induction cs with
  | nil => simp [cutLast]
  | cons c cs ih =>
    unfold cutLast
    split
    · next h => simp [← ih, h]
    · next h => have := ih.1 h; split <;> simp_all [eq_comm]

/-- The two parts and the separator make up the list, and the second part holds no separator. -/
theorem cutLast_eq_some_iff {cs before after : List α} :
    cutLast sep cs = some (before, after) ↔ cs = before ++ sep :: after ∧ sep ∉ after := by
  induction cs generalizing before after with
  | nil => simp [cutLast]
  | cons c cs ih =>
    unfold cutLast
    split
    · next b a h =>
      obtain ⟨hcs, ha⟩ := ih.1 h
      constructor
      · intro e
        cases e
        exact ⟨by rw [hcs]; rfl, ha⟩
      · rintro ⟨h1, h2⟩
        cases before with
        | nil =>
          injection h1 with _ htail
          exact absurd (by rw [← htail, hcs]; simp) h2
        | cons x before =>
          injection h1 with hc htail
          cases h.symm.trans (ih.2 ⟨htail, h2⟩)
          rw [hc]
    · next h =>
      have hno := cutLast_eq_none_iff.1 h
      constructor
      · intro e
        split at e
        · next hc => cases e; exact ⟨by rw [hc]; rfl, hno⟩
        · cases e
      · rintro ⟨h1, h2⟩
        cases before with
        | nil => injection h1 with hc htail; simp [hc, htail]
        | cons x before =>
          injection h1 with _ htail
          exact absurd (by rw [htail]; simp) hno

end CutLast

/-! ### Blanks -/

namespace Blank

/-- The code points with the property White_Space, as inclusive ranges in increasing order. -/
def ranges : List (Nat × Nat) :=
  [(0x09, 0x0D), (0x20, 0x20), (0x85, 0x85), (0xA0, 0xA0), (0x1680, 0x1680), (0x2000, 0x200A),
    (0x2028, 0x2029), (0x202F, 0x202F), (0x205F, 0x205F), (0x3000, 0x3000)]

/-- Whether a character has the property White_Space. -/
def isBlank (c : Char) : Bool :=
  ranges.any fun r => r.1 ≤ c.toNat && c.toNat ≤ r.2

/-- The text without the blanks at its two ends. -/
def trim (s : List Char) : List Char :=
  ((s.dropWhile isBlank).reverse.dropWhile isBlank).reverse

@[simp] theorem trim_nil : trim [] = [] := rfl

end Blank

end HotFrames

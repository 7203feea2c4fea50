import Mathlib

/-!
# Parts of a text between separators

No part holds a separator (`not_mem_of_mem_splitOn`), and parts that hold none are the parts of the
text that they make (`splitOn_toList_intercalate`), one more than the separators between them
(`count_intercalate_add_one`).  Fewer parts make a beginning of the text (`intercalate_prefix`).
Lines are told apart in the text that they make if none of them holds the letter that ends each
(`flatMap_append_singleton_inj`).
-/

namespace HotFrames

section Parts

variable {α : Type}

/-- No part between separators holds one. -/
theorem not_mem_of_mem_splitOn [DecidableEq α] {sep : α} {text part : List α}
    (h : part ∈ text.splitOn sep) : sep ∉ part := by
  induction text generalizing part with
  | nil =>
    obtain rfl : part = [] := by simpa using h
    exact List.not_mem_nil
  | cons c text ih =>
    rw [List.splitOn_cons_eq_if_modifyHead] at h
    split at h
    · obtain rfl | hrest := List.mem_cons.1 h
      · exact List.not_mem_nil
      · exact ih hrest
    · next hc =>
      obtain ⟨first, rest, hsplit⟩ := List.exists_cons_of_ne_nil (List.splitOn_ne_nil sep text)
      rw [hsplit, List.modifyHead_cons] at h
      obtain rfl | hrest := List.mem_cons.1 h
      · have hfirst : sep ∉ first := ih (hsplit ▸ List.mem_cons_self)
        have hne : sep ≠ c := fun he => hc (beq_iff_eq.2 he.symm)
        exact List.not_mem_cons_of_ne_of_not_mem hne hfirst
      · exact ih (hsplit ▸ List.mem_cons_of_mem first hrest)

/-- The parts hold nothing but what stands in the text. -/
theorem mem_of_mem_splitOn [DecidableEq α] {sep x : α} {text part : List α}
    (h : part ∈ text.splitOn sep) (hx : x ∈ part) : x ∈ text := by
  induction text generalizing part with
  | nil =>
    obtain rfl : part = [] := by simpa using h
    exact hx
  | cons c text ih =>
    rw [List.splitOn_cons_eq_if_modifyHead] at h
    obtain ⟨first, rest, hsplit⟩ := List.exists_cons_of_ne_nil (List.splitOn_ne_nil sep text)
    split at h
    · obtain rfl | hrest := List.mem_cons.1 h
      · cases hx
      · exact List.mem_cons_of_mem c (ih hrest hx)
    · rw [hsplit, List.modifyHead_cons] at h
      obtain rfl | hrest := List.mem_cons.1 h
      · obtain rfl | hfirst := List.mem_cons.1 hx
        · exact List.mem_cons_self
        · exact List.mem_cons_of_mem c (ih (hsplit ▸ List.mem_cons_self) hfirst)
      · exact List.mem_cons_of_mem c (ih (hsplit ▸ List.mem_cons_of_mem first hrest) hx)

/-- A letter of a text stands in a part or in a separator. -/
theorem mem_of_mem_intercalate {sep : List α} {c : α} {ls : List (List α)}
    (h : c ∈ sep.intercalate ls) : c ∈ sep ∨ ∃ l ∈ ls, c ∈ l := by
  induction ls with
  | nil => simp at h
  | cons l ls ih =>
    cases ls with
    | nil => exact .inr ⟨l, List.mem_cons_self, by simpa using h⟩
    | cons l' ls =>
      rw [List.intercalate_cons_cons, List.mem_append, List.mem_append] at h
      rcases h with (hl | hsep) | hrest
      · exact .inr ⟨l, List.mem_cons_self, hl⟩
      · exact .inl hsep
      · obtain hsep | ⟨m, hm, hc⟩ := ih hrest
        · exact .inl hsep
        · exact .inr ⟨m, List.mem_cons_of_mem l hm, hc⟩

/-- Parts without the separator are one more than the separators between them. -/
theorem count_intercalate_add_one [DecidableEq α] {sep : α} {ls : List (List α)}
    (hne : ls ≠ []) (h : ∀ l ∈ ls, sep ∉ l) : ([sep].intercalate ls).count sep + 1 = ls.length := by
  induction ls with
  | nil => exact absurd rfl hne
  | cons l ls ih =>
    have hl : l.count sep = 0 := List.count_eq_zero.2 (h l List.mem_cons_self)
    cases ls with
    | nil => simpa using hl
    | cons next ls =>
      have hrest := ih (List.cons_ne_nil next ls) fun m hm => h m (List.mem_cons_of_mem l hm)
      rw [List.intercalate_cons_cons, List.count_append, List.count_append, hl,
        List.count_singleton_self, List.length_cons, ← hrest]
      omega

/-- The first parts make a beginning of the text of all parts. -/
theorem intercalate_prefix {sep : List α} {parts all : List (List α)} (h : parts <+: all) :
    sep.intercalate parts <+: sep.intercalate all := by
  induction parts generalizing all with
  | nil =>
    rw [List.intercalate_nil]
    exact List.nil_prefix
  | cons part parts ih =>
    obtain ⟨more, rfl⟩ := h
    cases parts with
    | nil =>
      cases more with
      | nil => exact List.prefix_refl _
      | cons next more =>
        rw [List.intercalate_singleton, List.singleton_append, List.intercalate_cons_cons,
          List.append_assoc]
        exact List.prefix_append _ _
    | cons next parts =>
      rw [List.cons_append, List.cons_append, List.intercalate_cons_cons,
        List.intercalate_cons_cons, List.prefix_append_right_inj]
      exact ih (List.prefix_append (next :: parts) more)

/-! ## Beginnings that can be told apart -/

/-- Two lists are told apart from what follows them if all their members have a property that the
first thing behind them, if anything, does not have. -/
theorem append_inj_of_head? {p : α → Prop} {front front' rest rest' : List α}
    (h : ∀ a ∈ front, p a) (h' : ∀ a ∈ front', p a) (hrest : ∀ a, rest.head? = some a → ¬ p a)
    (hrest' : ∀ a, rest'.head? = some a → ¬ p a) (heq : front ++ rest = front' ++ rest') :
    front = front' ∧ rest = rest' := by
  induction front generalizing front' with
  | nil =>
    cases front' with
    | nil => exact ⟨rfl, heq⟩
    | cons c front' =>
      exact absurd (h' c List.mem_cons_self) (hrest c (by rw [List.nil_append] at heq; simp [heq]))
  | cons c front ih =>
    cases front' with
    | nil =>
      exact absurd (h c List.mem_cons_self) (hrest' c (by rw [List.nil_append] at heq; simp [← heq]))
    | cons c' front' =>
      obtain rfl : c = c' := List.head_eq_of_cons_eq heq
      obtain ⟨rfl, hrest⟩ := ih (fun a ha => h a (List.mem_cons_of_mem c ha))
        (fun a ha => h' a (List.mem_cons_of_mem c ha)) (List.tail_eq_of_cons_eq heq)
      exact ⟨rfl, hrest⟩

/-- What stands before the first separator, and what stands behind it. -/
theorem append_cons_inj {sep : α} {front front' rest rest' : List α} (h : sep ∉ front)
    (h' : sep ∉ front') (heq : front ++ sep :: rest = front' ++ sep :: rest') :
    front = front' ∧ rest = rest' := by
  have hsep : ∀ (rest : List α) (a : α), (sep :: rest).head? = some a → ¬ a ≠ sep := by simp
  obtain ⟨hfront, hrest⟩ := append_inj_of_head? (p := (· ≠ sep)) (fun _ ha he => h (he ▸ ha))
    (fun _ ha he => h' (he ▸ ha)) (hsep rest) (hsep rest') heq
  exact ⟨hfront, List.tail_eq_of_cons_eq hrest⟩

/-- Lines that do not hold the letter behind each of them are told apart in their text. -/
theorem flatMap_append_singleton_inj {sep : α} {ls ls' : List (List α)} (h : ∀ l ∈ ls, sep ∉ l)
    (h' : ∀ l ∈ ls', sep ∉ l) (heq : ls.flatMap (· ++ [sep]) = ls'.flatMap (· ++ [sep])) :
    ls = ls' := by
  induction ls generalizing ls' with
  | nil =>
    cases ls' with
    | nil => rfl
    | cons l' ls' => simp at heq
  | cons l ls ih =>
    cases ls' with
    | nil => simp at heq
    | cons l' ls' =>
      simp only [List.flatMap_cons, List.append_assoc, List.singleton_append] at heq
      obtain ⟨rfl, hrest⟩ := append_cons_inj (h l List.mem_cons_self) (h' l' List.mem_cons_self) heq
      rw [ih (fun m hm => h m (List.mem_cons_of_mem l hm))
        (fun m hm => h' m (List.mem_cons_of_mem l hm)) hrest]

end Parts

/-- Parts without the separator are the parts of the text that they make with separators between. -/
theorem splitOn_toList_intercalate {sep : String} {c : Char} (hsep : sep.toList = [c])
    {parts : List String} (hne : parts ≠ []) (h : ∀ part ∈ parts, c ∉ part.toList) :
    ((sep.intercalate parts).toList.splitOn c).map String.ofList = parts := by
  have hsplit : (([c] : List Char).intercalate (parts.map String.toList)).splitOn c =
      parts.map String.toList := by
    refine List.splitOn_intercalate c ?_ (by simpa using hne)
    intro cs hcs
    obtain ⟨part, hpart, rfl⟩ := List.mem_map.1 hcs
    exact h part hpart
  rw [String.toList_intercalate, hsep, hsplit, List.map_map]
  simp [Function.comp_def]

end HotFrames

import HotFrames.Source.Lines
import Mathlib

/-!
# Universal newlines

The lines of a text in which `\n`, `\r\n` and a bare `\r` each end a line, read off in one pass from
left to right (`lines`).  The pass is stated over any alphabet with two marked letters, so that it
serves bytes and characters alike.  A text begins with a line that goes on to the end of the text or
to one of the three terminators; these four rules (`Cut`) describe the pass completely (`cut_lines`,
`Cut.eq_lines`).  Where a text does not stop inside a line, the lines of what is put behind it begin
anew, except that a line feed may belong to a return in front of it (`lines_append`).  A map that
keeps terminators keeps the rules, and so it carries the lines of a text to the lines of its image
(`Keeps.map_lines`).
-/

namespace HotFrames

namespace Newline

variable {α β : Type}

/-- A text without terminators. -/
def Unbroken (lf cr : α) (text : List α) : Prop := lf ∉ text ∧ cr ∉ text

theorem unbroken_nil {lf cr : α} : Unbroken lf cr [] := ⟨List.not_mem_nil, List.not_mem_nil⟩

theorem unbroken_cons {lf cr c : α} {text : List α} :
    Unbroken lf cr (c :: text) ↔ (c ≠ lf ∧ c ≠ cr) ∧ Unbroken lf cr text := by
  simp only [Unbroken, List.mem_cons, not_or, ne_eq, eq_comm (a := c)]
  tauto

/-- A letter put in front of the first line, which is begun if there is none. -/
def extend (c : α) : List (List α) → List (List α)
  | [] => [[c]]
  | line :: rest => (c :: line) :: rest

/-- The lines of a text.  A carriage return takes a line feed behind it along; a line feed or a
return alone ends a line too; any other letter belongs to the line that goes on behind it.  Nothing
follows the last terminator, and letters behind it are a line without one. -/
def lines [DecidableEq α] (lf cr : α) : List α → List (List α)
  | [] => []
  | [c] => if c = lf ∨ c = cr then [[]] else [[c]]
  | c :: d :: rest =>
    if c = cr ∧ d = lf then [] :: lines lf cr rest
    else if c = lf ∨ c = cr then [] :: lines lf cr (d :: rest)
    else extend c (lines lf cr (d :: rest))

section Lines

variable [DecidableEq α] {lf cr : α}

/-- One step of the pass at a letter that ends no line. -/
theorem lines_cons_of_ne {c : α} (hlf : c ≠ lf) (hcr : c ≠ cr) (text : List α) :
    lines lf cr (c :: text) = extend c (lines lf cr text) := by
  cases text with
  | nil => simp [lines, extend, hlf, hcr]
  | cons d rest => simp [lines, hlf, hcr]

theorem lines_lf (h : lf ≠ cr) (text : List α) :
    lines lf cr (lf :: text) = [] :: lines lf cr text := by
  cases text <;> simp [lines, h]

theorem lines_cr_lf (text : List α) : lines lf cr (cr :: lf :: text) = [] :: lines lf cr text := by
  simp [lines]

theorem lines_cr {text : List α} (h : text.head? ≠ some lf) :
    lines lf cr (cr :: text) = [] :: lines lf cr text := by
  cases text with
  | nil => simp [lines]
  | cons d rest => simp [lines, show d ≠ lf by simpa using h]

/-- Letters in front of a text whose first line is known. -/
theorem lines_append_of_eq_cons {text rest : List α} {line : List α} {more : List (List α)}
    (ht : Unbroken lf cr text) (h : lines lf cr rest = line :: more) :
    lines lf cr (text ++ rest) = (text ++ line) :: more := by
  induction text with
  | nil => exact h
  | cons c text ih =>
    obtain ⟨⟨hlf, hcr⟩, ht⟩ := unbroken_cons.1 ht
    rw [List.cons_append, lines_cons_of_ne hlf hcr, ih ht]
    rfl

theorem lines_append_lf {text : List α} (h : lf ≠ cr) (ht : Unbroken lf cr text) (rest : List α) :
    lines lf cr (text ++ lf :: rest) = text :: lines lf cr rest := by
  rw [lines_append_of_eq_cons ht (lines_lf h rest), List.append_nil]

theorem lines_append_cr_lf {text : List α} (ht : Unbroken lf cr text) (rest : List α) :
    lines lf cr (text ++ cr :: lf :: rest) = text :: lines lf cr rest := by
  rw [lines_append_of_eq_cons ht (lines_cr_lf rest), List.append_nil]

theorem lines_append_cr {text rest : List α} (ht : Unbroken lf cr text)
    (hr : rest.head? ≠ some lf) :
    lines lf cr (text ++ cr :: rest) = text :: lines lf cr rest := by
  rw [lines_append_of_eq_cons ht (lines_cr hr), List.append_nil]

/-- A text without terminators is one line, unless it is empty. -/
theorem lines_of_unbroken {text : List α} (ht : Unbroken lf cr text) (hne : text ≠ []) :
    lines lf cr text = [text] := by
  induction text with
  | nil => exact absurd rfl hne
  | cons c text ih =>
    obtain ⟨⟨hlf, hcr⟩, ht⟩ := unbroken_cons.1 ht
    rw [lines_cons_of_ne hlf hcr]
    cases text with
    | nil => rfl
    | cons d rest => rw [ih ht (List.cons_ne_nil d rest), extend]

end Lines

/-! ## Lines as a relation -/

/-- The lines of a text, rule by rule: a text begins with a line, the line with one terminator, and
what is behind the terminator goes on by the same rules.  A bare return has no line feed behind
it. -/
inductive Cut (lf cr : α) : List α → List (List α) → Prop
  | nil : Cut lf cr [] []
  | last {text : List α} (ht : Unbroken lf cr text) (hne : text ≠ []) : Cut lf cr text [text]
  | feed {text rest : List α} {more : List (List α)} (ht : Unbroken lf cr text)
      (hr : Cut lf cr rest more) : Cut lf cr (text ++ lf :: rest) (text :: more)
  | returnFeed {text rest : List α} {more : List (List α)} (ht : Unbroken lf cr text)
      (hr : Cut lf cr rest more) : Cut lf cr (text ++ cr :: lf :: rest) (text :: more)
  | bareReturn {text rest : List α} {more : List (List α)} (ht : Unbroken lf cr text)
      (hhead : rest.head? ≠ some lf) (hr : Cut lf cr rest more) :
      Cut lf cr (text ++ cr :: rest) (text :: more)

section Cut

variable {lf cr : α}

/-- A letter in front of a text goes to its first line. -/
theorem Cut.extend {c : α} {text : List α} {ls : List (List α)} (hlf : c ≠ lf) (hcr : c ≠ cr)
    (h : Cut lf cr text ls) : Cut lf cr (c :: text) (extend c ls) := by
  have longer {t : List α} (ht : Unbroken lf cr t) : Unbroken lf cr (c :: t) :=
    unbroken_cons.2 ⟨⟨hlf, hcr⟩, ht⟩
  cases h with
  | nil => exact .last (longer unbroken_nil) (List.cons_ne_nil c [])
  | last ht hne => exact .last (longer ht) (List.cons_ne_nil c text)
  | feed ht hr => exact .feed (longer ht) hr
  | returnFeed ht hr => exact .returnFeed (longer ht) hr
  | bareReturn ht hhead hr => exact .bareReturn (longer ht) hhead hr

variable [DecidableEq α]

/-- The pass keeps the rules. -/
theorem cut_lines (h : lf ≠ cr) (text : List α) : Cut lf cr text (lines lf cr text) := by
  fun_induction lines lf cr text with
  | case1 => exact .nil
  | case2 c hc =>
    rcases hc with rfl | rfl
    · exact .feed unbroken_nil .nil
    · exact .bareReturn unbroken_nil (by simp) .nil
  | case3 c hc =>
    obtain ⟨hlf, hcr⟩ := not_or.1 hc
    exact .last (unbroken_cons.2 ⟨⟨hlf, hcr⟩, unbroken_nil⟩) (List.cons_ne_nil c [])
  | case4 c d rest hcd ih =>
    obtain ⟨rfl, rfl⟩ := hcd
    exact .returnFeed unbroken_nil ih
  | case5 c d rest hcd hc ih =>
    rcases hc with rfl | rfl
    · exact .feed unbroken_nil ih
    · exact .bareReturn unbroken_nil (by simpa using hcd) ih
  | case6 c d rest _ hc ih =>
    obtain ⟨hlf, hcr⟩ := not_or.1 hc
    exact ih.extend hlf hcr

/-- The rules leave no choice. -/
theorem Cut.eq_lines (h : lf ≠ cr) {text : List α} {ls : List (List α)} (hc : Cut lf cr text ls) :
    ls = lines lf cr text := by
  induction hc with
  | nil => rfl
  | last ht hne => exact (lines_of_unbroken ht hne).symm
  | feed ht _ ih => rw [lines_append_lf h ht, ← ih]
  | returnFeed ht _ ih => rw [lines_append_cr_lf ht, ← ih]
  | bareReturn ht hhead _ ih => rw [lines_append_cr ht hhead, ← ih]

/-- A line is a contiguous part of the text. -/
theorem infix_of_mem_lines (h : lf ≠ cr) {text line : List α} (hmem : line ∈ lines lf cr text) :
    line <:+: text := by
  generalize hls : lines lf cr text = ls at hmem
  have hc : Cut lf cr text ls := hls ▸ cut_lines h text
  clear hls
  have step {t rest ending : List α} {more : List (List α)} (hmem : line ∈ t :: more)
      (ih : line ∈ more → line <:+: rest) (hend : rest <:+ ending) : line <:+: t ++ ending := by
    rcases List.mem_cons.1 hmem with rfl | hmore
    · exact (List.prefix_append _ _).isInfix
    · exact (ih hmore).trans (hend.trans (List.suffix_append _ _)).isInfix
  induction hc with
  | nil => exact absurd hmem List.not_mem_nil
  | last _ _ =>
    obtain rfl := List.mem_singleton.1 hmem
    exact List.infix_refl _
  | feed _ _ ih => exact step hmem ih (List.suffix_cons _ _)
  | returnFeed _ _ ih => exact step hmem ih ((List.suffix_cons _ _).trans (List.suffix_cons _ _))
  | bareReturn _ _ _ ih => exact step hmem ih (List.suffix_cons _ _)

end Cut

/-! ## Lines of two texts -/

/-- Whether a text does not stop inside a line. -/
def Ended (lf cr : α) (text : List α) : Prop :=
  text = [] ∨ text.getLast? = some lf ∨ text.getLast? = some cr

theorem Ended.of_cons {lf cr c : α} {text : List α} (h : Ended lf cr (c :: text)) :
    Ended lf cr text := by
  cases text with
  | nil => exact .inl rfl
  | cons d text => simpa [Ended, List.getLast?_cons_cons] using h

theorem extend_append {c : α} {ls : List (List α)} (hne : ls ≠ []) (more : List (List α)) :
    extend c (ls ++ more) = extend c ls ++ more := by
  obtain ⟨line, rest, rfl⟩ := List.exists_cons_of_ne_nil hne
  rfl

section Append

variable [DecidableEq α] {lf cr : α}

/-- What is left of a text behind another one: a line feed right behind a return belongs to it. -/
def leftBehind (lf cr : α) (text rest : List α) : List α :=
  if text.getLast? = some cr ∧ rest.head? = some lf then rest.tail else rest

theorem leftBehind_cons_cons (c d : α) (text rest : List α) :
    leftBehind lf cr (c :: d :: text) rest = leftBehind lf cr (d :: text) rest := by
  simp only [leftBehind, List.getLast?_cons_cons]

theorem leftBehind_lf_cons (h : lf ≠ cr) (text rest : List α) :
    leftBehind lf cr (lf :: text) rest = leftBehind lf cr text rest := by
  cases text with
  | nil => simp [leftBehind, h]
  | cons d text => exact leftBehind_cons_cons lf d text rest

theorem lines_ne_nil {text : List α} (hne : text ≠ []) : lines lf cr text ≠ [] := by
  fun_cases lines lf cr text with
  | case1 => exact absurd rfl hne
  | case2 => exact List.cons_ne_nil _ _
  | case3 => exact List.cons_ne_nil _ _
  | case4 => exact List.cons_ne_nil _ _
  | case5 => exact List.cons_ne_nil _ _
  | case6 c d rest => cases lines lf cr (d :: rest) <;> exact List.cons_ne_nil _ _

/-- A text of one terminator in front of another text. -/
theorem lines_terminator_append (h : lf ≠ cr) {c : α} (hc : c = lf ∨ c = cr) (rest : List α) :
    lines lf cr (c :: rest) = [] :: lines lf cr (leftBehind lf cr [c] rest) := by
  rcases hc with rfl | rfl
  · rw [lines_lf h, leftBehind_lf_cons h]
    simp [leftBehind]
  · by_cases hhead : rest.head? = some lf
    · obtain ⟨rest, rfl⟩ := List.head?_eq_some_iff.1 hhead
      rw [lines_cr_lf]
      simp [leftBehind]
    · rw [lines_cr hhead]
      simp [leftBehind, hhead]

/-- Behind a text that does not stop inside a line the lines of another one begin anew, with what is
left of it. -/
theorem lines_append (h : lf ≠ cr) {text : List α} (hend : Ended lf cr text) (rest : List α) :
    lines lf cr (text ++ rest) = lines lf cr text ++ lines lf cr (leftBehind lf cr text rest) := by
  fun_induction lines lf cr text with
  | case1 => simp [leftBehind]
  | case2 c hc => exact lines_terminator_append h hc rest
  | case3 c hc =>
    refine absurd hend ?_
    simpa [Ended] using hc
  | case4 c d text hcd ih =>
    obtain ⟨rfl, rfl⟩ := hcd
    rw [List.cons_append, List.cons_append, lines_cr_lf, ih hend.of_cons.of_cons,
      leftBehind_cons_cons, leftBehind_lf_cons h, List.cons_append]
  | case5 c d text hcd hc ih =>
    have hfirst : lines lf cr (c :: (d :: text ++ rest)) = [] :: lines lf cr (d :: text ++ rest) := by
      rw [lines_terminator_append h hc, leftBehind, if_neg (by simpa using hcd)]
    rw [List.cons_append, hfirst, ih hend.of_cons, leftBehind_cons_cons, List.cons_append]
  | case6 c d text hcd hc ih =>
    obtain ⟨hlf, hcr⟩ := not_or.1 hc
    rw [List.cons_append, lines_cons_of_ne hlf hcr, ih hend.of_cons, leftBehind_cons_cons,
      extend_append (lines_ne_nil (List.cons_ne_nil d text))]

/-- The lines that a text has more by itself than behind another one: an empty one in front, if its
line feed belongs to a return. -/
theorem lines_eq_append_leftBehind (h : lf ≠ cr) (text rest : List α) :
    lines lf cr rest = (if text.getLast? = some cr ∧ rest.head? = some lf then [[]] else []) ++
      lines lf cr (leftBehind lf cr text rest) := by
  unfold leftBehind
  split_ifs with htorn
  · obtain ⟨rest, rfl⟩ := List.head?_eq_some_iff.1 htorn.2
    exact lines_lf h rest
  · rfl

end Append

/-! ## Maps that keep lines -/

/-- A map of texts that keeps terminators: it works on the texts to both sides of one by itself,
makes none out of other letters, and leaves no text empty. -/
structure Keeps (lf cr : α) (lf' cr' : β) (f : List α → List β) : Prop where
  nil : f [] = []
  ne_nil {text : List α} : text ≠ [] → f text ≠ []
  feed (text rest : List α) : f (text ++ lf :: rest) = f text ++ lf' :: f rest
  bare (text rest : List α) : f (text ++ cr :: rest) = f text ++ cr' :: f rest
  unbroken {text : List α} : Unbroken lf cr text → Unbroken lf' cr' (f text)

namespace Keeps

variable {lf cr : α} {lf' cr' : β} {f : List α → List β}

/-- The image of a line without terminators does not begin with a line feed. -/
theorem head?_append_ne (k : Keeps lf cr lf' cr' f) {text : List α} (ht : Unbroken lf cr text)
    (hne : text ≠ []) (rest : List β) : (f text ++ rest).head? ≠ some lf' := by
  obtain ⟨c, cs, hc⟩ := List.exists_cons_of_ne_nil (k.ne_nil hne)
  have hlf : c ≠ lf' := (unbroken_cons.1 (hc ▸ k.unbroken ht)).1.1
  simpa [hc] using hlf

variable [DecidableEq α]

/-- No line feed comes to the front of a text. -/
theorem head?_ne (k : Keeps lf cr lf' cr' f) (h : lf ≠ cr) (h' : lf' ≠ cr') {text : List α}
    (hhead : text.head? ≠ some lf) : (f text).head? ≠ some lf' := by
  obtain ⟨ls, hc⟩ : ∃ ls, Cut lf cr text ls := ⟨_, cut_lines h text⟩
  have hreturn (t : List α) (rest : List β) (ht : Unbroken lf cr t) :
      (f t ++ cr' :: rest).head? ≠ some lf' := by
    by_cases hne : t = []
    · simpa [hne, k.nil] using h'.symm
    · exact k.head?_append_ne ht hne _
  cases hc with
  | nil => simp [k.nil]
  | last ht hne => simpa using k.head?_append_ne ht hne []
  | @feed t rest more ht _ =>
    have hne : t ≠ [] := by
      rintro rfl
      exact hhead rfl
    rw [k.feed]
    exact k.head?_append_ne ht hne _
  | returnFeed ht _ => rw [k.bare]; exact hreturn _ _ ht
  | bareReturn ht _ _ => rw [k.bare]; exact hreturn _ _ ht

/-- The lines of the image are the images of the lines. -/
theorem map_lines [DecidableEq β] (k : Keeps lf cr lf' cr' f) (h : lf ≠ cr) (h' : lf' ≠ cr')
    (text : List α) : lines lf' cr' (f text) = (lines lf cr text).map f := by
  symm
  apply Cut.eq_lines h'
  generalize hls : lines lf cr text = ls
  have hc : Cut lf cr text ls := hls ▸ cut_lines h text
  clear hls
  induction hc with
  | nil => exact k.nil ▸ .nil
  | last ht hne => exact .last (k.unbroken ht) (k.ne_nil hne)
  | feed ht _ ih =>
    rw [k.feed]
    exact .feed (k.unbroken ht) ih
  | @returnFeed t rest more ht _ ih =>
    have hsplit : f (t ++ cr :: lf :: rest) = f t ++ cr' :: lf' :: f rest := by
      have hfeed := k.feed [] rest
      rw [k.nil, List.nil_append, List.nil_append] at hfeed
      rw [k.bare, hfeed]
    rw [hsplit]
    exact .returnFeed (k.unbroken ht) ih
  | bareReturn ht hhead _ ih =>
    rw [k.bare]
    exact .bareReturn (k.unbroken ht) (k.head?_ne h h' hhead) ih

end Keeps

end Newline

end HotFrames

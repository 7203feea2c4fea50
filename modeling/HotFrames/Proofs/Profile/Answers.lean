import HotFrames.Proofs.Profile.Lines
import HotFrames.Proofs.Stack

/-!
# Lines read one by one

A caller who reads lines one by one, and goes on after an overflow, gets one answer for each line
(`Profile.answers`).  A line is recorded, or blank, or malformed, or it overflows, and the counters
tell how often each was the case (`Profile.length_eq_of_answers`).  A line that is not recorded
leaves the sums as they were (`Profile.SameSums`), and equal sums give equal answers but for the
numbers of lines; so such a line could as well not have been read
(`Profile.SameSums.answers_kept`).
-/

namespace HotFrames

namespace Profile

/-- The answers to lines that are read one by one, whatever the answers before were. -/
def answers : Profile → List String → List (Except Error Bool)
  | _, [] => []
  | p, line :: lines => (p.recordLine line).1 :: (p.recordLine line).2.answers lines

/-- An answer without the number of the line that its error names. -/
def unnumbered : Except Error Bool → Except Error Bool
  | .error (.sampleOverflow _) => .error (.sampleOverflow 0)
  | answer => answer

/-- The items of a list that are marked to be kept. -/
def kept {α : Type} (marks : List Bool) (items : List α) : List α :=
  ((items.zip marks).filter Prod.snd).map Prod.fst

/-- Whether an answer tells of an overflow. -/
def isOverflow : Except Error Bool → Bool
  | .error (.sampleOverflow _) => true
  | _ => false

variable {p q r : Profile}

/-! ## Equal sums -/

/-- Two profiles hold the same, whatever lines they have read and skipped. -/
structure SameSums (p q : Profile) : Prop where
  total : p.total = q.total
  leaf : p.leaf = q.leaf
  spaces : p.spaces = q.spaces
  parsed : p.parsed = q.parsed

namespace SameSums

theorem trans (h : SameSums p q) (h' : SameSums q r) : SameSums p r :=
  ⟨h.total.trans h'.total, h.leaf.trans h'.leaf, h.spaces.trans h'.spaces,
    h.parsed.trans h'.parsed⟩

theorem table (h : SameSums p q) (scope : Scope) : p.table scope = q.table scope := by
  cases scope with
  | leaf => exact h.leaf
  | within n => exact congrArg (·.get n) h.spaces

/-- A line that is not recorded leaves the sums as they were. -/
theorem of_not_recorded {line : String} (hanswer : (p.recordLine line).1 ≠ .ok true) :
    SameSums (p.recordLine line).2 p := by
  rcases p.recordLine_cases line with ⟨-, h⟩ | ⟨s, _, -, h⟩ | ⟨s, _, -, h⟩
  · rw [h]
    exact ⟨rfl, rfl, rfl, rfl⟩
  · rw [h] at hanswer
    exact absurd rfl hanswer
  · rw [h]
    exact ⟨rfl, rfl, rfl, rfl⟩

theorem plus (h : SameSums p q) (s : Stack) (hp : p.total.val + s.count.val < Samples.bound)
    (hq : q.total.val + s.count.val < Samples.bound) : SameSums (p.plus s hp) (q.plus s hq) where
  total := by simp only [Profile.plus, h.total]
  leaf := by simp only [Profile.plus, h.leaf]
  spaces := by simp only [Profile.plus, h.spaces]
  parsed := by simp only [Profile.plus, h.parsed]

theorem readOn (h : SameSums p q) : SameSums p.readOn q.readOn :=
  ⟨h.total, h.leaf, h.spaces, h.parsed⟩

/-- Profiles with equal sums give equal answers, but for the lines that errors name, and go on with
equal sums. -/
theorem recordLine (h : SameSums p q) (line : String) :
    unnumbered (p.recordLine line).1 = unnumbered (q.recordLine line).1 ∧
      SameSums (p.recordLine line).2 (q.recordLine line).2 := by
  rcases p.recordLine_cases line with ⟨hs, hp⟩ | ⟨s, hlt, hs, hp⟩ | ⟨s, hge, hs, hp⟩
  · rw [hp, recordLine_of_none hs]
    exact ⟨rfl, h.total, h.leaf, h.spaces, h.parsed⟩
  · have hlt' : q.total.val + s.count.val < Samples.bound := h.total ▸ hlt
    rw [hp, recordLine_of_lt hs hlt']
    exact ⟨rfl, h.readOn.plus s hlt hlt'⟩
  · have hge' : Samples.bound ≤ q.total.val + s.count.val := h.total ▸ hge
    rw [hp, recordLine_of_le hs hge']
    exact ⟨rfl, h.readOn⟩

end SameSums

/-! ## Runs -/

variable {lines : List String}

theorem run_cons (p : Profile) (line : String) (lines : List String) :
    p.run ((line :: lines).map .recordLine) =
      (p.recordLine line).2.run (lines.map .recordLine) := rfl

theorem parsed_run (p : Profile) (lines : List String) :
    (p.run (lines.map .recordLine)).parsed = p.parsed + (p.answers lines).count (.ok true) := by
  induction lines generalizing p with
  | nil => rfl
  | cons line lines ih =>
    obtain ⟨-, -, hparsed⟩ := p.counters_recordLine line
    rw [run_cons, ih, hparsed, answers, List.count_cons]
    simp only [beq_iff_eq]
    omega

/-- Every line is recorded, or malformed, or blank, or it overflows. -/
theorem length_eq_of_answers (p : Profile) (lines : List String) :
    lines.length = (p.answers lines).count (.ok true) + lines.countP Stack.isMalformed +
      (lines.countP Stack.isBlankLine + (p.answers lines).countP isOverflow) := by
  induction lines generalizing p with
  | nil => rfl
  | cons line lines ih =>
    have hwell {s : Stack} (hs : Stack.parse? line = some s) :
        Stack.isBlankLine line = false ∧ Stack.isMalformed line = false := by
      refine ⟨?_, by simp [Stack.isMalformed, hs]⟩
      by_contra hblank
      rw [Stack.parse?_of_isBlankLine (by simpa using hblank)] at hs
      cases hs
    rw [answers, List.length_cons, List.count_cons, List.countP_cons, List.countP_cons,
      List.countP_cons, ih (p.recordLine line).2]
    rcases p.recordLine_cases line with ⟨hs, h⟩ | ⟨s, _, hs, h⟩ | ⟨s, _, hs, h⟩
    · rw [h]
      cases hb : Stack.isBlankLine line <;> simp [isOverflow, Stack.isMalformed, hs, hb] <;> omega
    · rw [h]
      simp [isOverflow, hwell hs]
      omega
    · rw [h]
      simp [isOverflow, hwell hs]
      omega

/-- An error is an overflow at its own line. -/
theorem answers_eq_error {i : ℕ} {e : Error}
    (he : (p.answers lines)[i]? = some (.error e)) :
    e = .sampleOverflow (p.linesRead + (i + 1)) := by
  induction lines generalizing p i with
  | nil => cases he
  | cons line lines ih =>
    cases i with
    | zero =>
      have hanswer : (p.recordLine line).1 = .error e := Option.some.inj he
      rcases p.recordLine_cases line with ⟨-, h⟩ | ⟨s, _, -, h⟩ | ⟨s, _, -, h⟩ <;>
        rw [h] at hanswer <;> cases hanswer
      rfl
    | succ i =>
      obtain ⟨hread, -⟩ := p.counters_recordLine line
      have hlater : ((p.recordLine line).2.answers lines)[i]? = some (.error e) := he
      rw [ih hlater, hread, Nat.add_assoc, Nat.add_comm 1 (i + 1)]

namespace SameSums

/-- Lines that are not recorded can be left out. -/
theorem answers_kept (h : SameSums p q) {marks : List Bool} (hlength : marks.length = lines.length)
    (hout : ∀ e ∈ (p.answers lines).zip marks, e.2 = false → e.1 ≠ .ok true) :
    (q.answers (kept marks lines)).map unnumbered =
        (kept marks (p.answers lines)).map unnumbered ∧
      SameSums (p.run (lines.map .recordLine))
        (q.run ((kept marks lines).map .recordLine)) := by
  induction lines generalizing p q marks with
  | nil =>
    obtain rfl := List.length_eq_zero_iff.1 hlength
    exact ⟨rfl, h⟩
  | cons line lines ih =>
    obtain ⟨mark, marks, rfl⟩ := List.exists_cons_of_length_eq_add_one hlength
    rw [answers, List.zip_cons_cons, List.forall_mem_cons] at hout
    rw [List.length_cons, List.length_cons, Nat.add_right_cancel_iff] at hlength
    cases mark with
    | false =>
      have hsame := (of_not_recorded (hout.1 rfl)).trans h
      exact ih hsame hlength hout.2
    | true =>
      obtain ⟨hanswer, hsame⟩ := h.recordLine line
      obtain ⟨hanswers, hrun⟩ := ih hsame hlength hout.2
      refine ⟨?_, hrun⟩
      exact List.cons_eq_cons.2 ⟨hanswer.symm, hanswers⟩

end SameSums

/-- **The answers account for every line, and lines that are not recorded leave no trace.**  All
lines are counted as read; those with the answer `true` are counted as parsed, those that are
neither blank nor a stack as skipped, and the others are blank or overflow.  An error is an overflow
and names its own line.  Leaving out any lines with another answer than `true` changes neither the
answers to the others, but for the line that an error names, nor the total, the number of stacks
or a table. -/
theorem answers_account (lines : List String) :
    let p := empty.run (lines.map .recordLine)
    let given := empty.answers lines
    (p.linesRead = lines.length ∧ p.parsed = given.count (.ok true) ∧
      p.skipped = lines.countP (fun line =>
        !line.toList.all Blank.isBlank && (Stack.parse? line).isNone) ∧
      p.linesRead = p.parsed + p.skipped +
        (lines.countP (fun line => line.toList.all Blank.isBlank) + given.countP isOverflow)) ∧
    (∀ (i : ℕ) (e : Error), given[i]? = some (.error e) → e = .sampleOverflow (i + 1)) ∧
    ∀ marks : List Bool, marks.length = lines.length →
      (∀ e ∈ given.zip marks, e.2 = false → e.1 ≠ .ok true) →
      let q := empty.run ((kept marks lines).map .recordLine)
      (empty.answers (kept marks lines)).map unnumbered =
          (kept marks given).map unnumbered ∧
        q.total = p.total ∧ q.parsed = p.parsed ∧ ∀ scope, q.table scope = p.table scope := by
  intro p given
  obtain ⟨hread, hskipped⟩ := empty.counters_run lines
  have hread : p.linesRead = lines.length := hread.trans (Nat.zero_add _)
  have hskipped : p.skipped = lines.countP Stack.isMalformed := hskipped.trans (Nat.zero_add _)
  have hparsed : p.parsed = given.count (.ok true) :=
    (empty.parsed_run lines).trans (Nat.zero_add _)
  have hmalformed : Stack.isMalformed =
      fun line => !line.toList.all Blank.isBlank && (Stack.parse? line).isNone :=
    funext fun line => by rw [Stack.isMalformed, Stack.isBlankLine_eq_all]
  refine ⟨⟨hread, hparsed, hmalformed ▸ hskipped, ?_⟩, fun i e he => ?_, ?_⟩
  · rw [hread, hparsed, hskipped, ← funext Stack.isBlankLine_eq_all]
    exact empty.length_eq_of_answers lines
  · rw [answers_eq_error he]
    exact congrArg _ (Nat.zero_add _)
  · intro marks hlength hout q
    have hempty : SameSums empty empty := ⟨rfl, rfl, rfl, rfl⟩
    obtain ⟨hanswers, hsame⟩ := hempty.answers_kept hlength hout
    exact ⟨hanswers, hsame.total.symm, hsame.parsed.symm, fun scope => (hsame.table scope).symm⟩

/-- An overflow between stacks that fit, with a blank and a malformed line; the overflow and the
malformed line are left out. -/
theorem answers_account_overflow :
    let lines :=
      ["a;b 340282366920938463463374607431768211454", "", "c 2", "no count", "d 1", "e 1"]
    let marks := [true, true, false, false, true, true]
    let given := empty.answers lines
    given = [.ok true, .ok false, .error (.sampleOverflow 3), .ok false, .ok true,
        .error (.sampleOverflow 6)] ∧
      (∀ e ∈ given.zip marks, e.2 = false → e.1 ≠ .ok true) ∧
      (empty.answers (kept marks lines)).map unnumbered =
        [.ok true, .ok false, .ok true, .error (.sampleOverflow 0)] := by
  intro lines marks given
  have hgiven : given = [.ok true, .ok false, .error (.sampleOverflow 3), .ok false, .ok true,
      .error (.sampleOverflow 6)] := by decide +kernel
  have hout : ∀ e ∈ given.zip marks, e.2 = false → e.1 ≠ .ok true := by
    rw [hgiven]
    decide
  obtain ⟨hanswers, -⟩ := (answers_account lines).2.2 marks rfl hout
  refine ⟨hgiven, hout, hanswers.trans ?_⟩
  show (kept marks given).map _ = _
  rw [hgiven]
  rfl

end Profile

end HotFrames

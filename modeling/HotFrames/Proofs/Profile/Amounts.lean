import HotFrames.Proofs.Profile.Lines
import HotFrames.Proofs.Stack.Grammar

/-!
# Amounts out of range

A line may spell a number of samples that is no count any more (`Stack.amount`).  Such a line is not
read as a stack, so its amount is left out of the sums, whatever the total is: lines add up to those
of their amounts that are counts (`Stack.sum_ofLines`).  The amounts of all lines are accounted for,
by the total or by the number of the line at which they leave the range (`Profile.AccountsFor`),
just if no line spells more than a count before that (`Profile.accountsFor_iff`).
-/

namespace HotFrames

namespace Stack

/-- The number of samples that a line spells, however large it is.  A line that spells no stack has
none. -/
def amount (line : String) : ℕ :=
  match cutLast ' ' (Blank.trim line.toList) with
  | none => 0
  | some (_, token) =>
    let digits := Numeral.dropPlus token
    if Numeral.isNumeral digits then Numeral.value digits else 0

/-- The samples that some lines spell together. -/
def worth (lines : List String) : ℕ := (lines.map amount).sum

section Line

variable {line : String} {frames : List String} {count : ℕ}

theorem amount_of_spells (h : Spells (Blank.trim line.toList) frames count) :
    amount line = count := by
  obtain ⟨joined, plus, digits, htext, hplus, ⟨hne, hdigits, hvalue⟩, -⟩ := h
  have hspace : ' ' ∉ plus ++ digits := by
    rw [List.mem_append, not_or]
    refine ⟨?_, fun hmem => absurd (hdigits ' ' hmem) (by decide)⟩
    rcases hplus with rfl | rfl <;> decide
  have hnumeral : Numeral.isNumeral digits = true := isNumeral_iff.2 ⟨hne, hdigits⟩
  rw [amount, cutLast_eq_some_iff.2 ⟨htext, hspace⟩]
  simp only [dropPlus_append hplus hdigits, if_pos hnumeral, hvalue]

/-- A line with samples spells a stack with that many. -/
theorem exists_spells_of_amount_ne_zero (h : amount line ≠ 0) :
    ∃ frames, Spells (Blank.trim line.toList) frames (amount line) := by
  unfold amount at h ⊢
  split at h
  · exact absurd rfl h
  · next joined token hcut =>
    simp only at h ⊢
    split at h
    · next hnumeral =>
      obtain ⟨plus, htoken, hplus⟩ := exists_dropPlus token
      obtain ⟨hne, hdigits⟩ := isNumeral_iff.1 hnumeral
      obtain ⟨htext, -⟩ := cutLast_eq_some_iff.1 hcut
      rw [if_pos hnumeral]
      refine ⟨splitFrames joined, joined, plus, _, ?_, hplus, ⟨hne, hdigits, rfl⟩,
        splitFrames_eq_iff.1 rfl⟩
      rw [htext, ← htoken]
    · exact absurd rfl h

/-- The amount of a line that is read as a stack is its count. -/
theorem amount_of_some {s : Stack} (h : parse? line = some s) : amount line = s.count.val :=
  amount_of_spells (parse?_eq_some_iff_spells.1 h)

/-- A line that is not read as a stack spells nothing, or more than a count. -/
theorem amount_of_none (h : parse? line = none) : amount line = 0 ∨ Samples.bound ≤ amount line := by
  by_contra hcount
  obtain ⟨hne, hlt⟩ := not_or.1 hcount
  obtain ⟨frames, hspells⟩ := exists_spells_of_amount_ne_zero hne
  have hsome : parse? line = some ⟨frames, ⟨amount line, Nat.lt_of_not_le hlt⟩⟩ :=
    parse?_eq_some_iff_spells.2 hspells
  rw [h] at hsome
  cases hsome

/-- A line with more than a count is passed over as a malformed one. -/
theorem isMalformed_of_le_amount (h : Samples.bound ≤ amount line) : isMalformed line = true := by
  have hnone : parse? line = none := by
    cases hs : parse? line with
    | none => rfl
    | some s => exact absurd (amount_of_some hs ▸ s.count.lt) (Nat.not_lt.2 h)
  have hblank : isBlankLine line = false := by
    by_contra hblank
    have htrim : Blank.trim line.toList = [] := List.isEmpty_iff.1 (Bool.of_not_eq_false hblank)
    have hzero : amount line = 0 := by rw [amount, htrim]; rfl
    exact absurd (hzero ▸ h) (by decide)
  rw [isMalformed, hblank, hnone]
  rfl

end Line

variable (lines : List String)

/-- Lines add up to those of their amounts that are counts. -/
theorem sum_ofLines : sum (ofLines lines) =
    ((lines.map amount).filter fun n => n < Samples.bound).sum := by
  induction lines with
  | nil => rfl
  | cons line lines ih =>
    rw [List.map_cons, List.filter_cons]
    cases hs : parse? line with
    | none =>
      have hrest : ofLines (line :: lines) = ofLines lines := by simp [ofLines, hs]
      rw [hrest, ih]
      rcases amount_of_none hs with hzero | hge
      · rw [hzero, if_pos (by decide), List.sum_cons, Nat.zero_add]
      · rw [if_neg (by simpa using hge)]
    | some s =>
      have hrest : ofLines (line :: lines) = s :: ofLines lines := by simp [ofLines, hs]
      have hlt : amount line < Samples.bound := amount_of_some hs ▸ s.count.lt
      rw [hrest, if_pos (by simpa using hlt), List.sum_cons, ← ih, amount_of_some hs]
      rfl

theorem sum_ofLines_le_worth : sum (ofLines lines) ≤ worth lines := by
  rw [sum_ofLines, worth]
  exact List.filter_sublist.sum_le_sum fun _ _ => Nat.zero_le _

/-- Lines none of which spells more than a count add up to what they spell. -/
theorem sum_ofLines_eq_worth (h : ∀ line ∈ lines, amount line < Samples.bound) :
    sum (ofLines lines) = worth lines := by
  rw [sum_ofLines, worth, List.filter_eq_self.2]
  simpa using h

theorem worth_take_add_one {lines : List String} {line : String} {i : ℕ}
    (h : lines[i]? = some line) :
    worth (lines.take (i + 1)) = worth (lines.take i) + amount line := by
  rw [worth, worth, List.take_add_one, h, List.map_append, List.sum_append]
  rfl

theorem sum_ofLines_take_add_one {lines : List String} {line : String} {i : ℕ}
    (h : lines[i]? = some line) :
    sum (ofLines (lines.take (i + 1))) =
      sum (ofLines (lines.take i)) + if amount line < Samples.bound then amount line else 0 := by
  rw [sum_ofLines, sum_ofLines, List.take_add_one, h, List.map_append, List.filter_append,
    List.sum_append]
  by_cases hlt : amount line < Samples.bound <;> simp [hlt]

theorem worth_take_le (i : ℕ) : worth (lines.take i) ≤ worth lines :=
  ((List.take_sublist i lines).map amount).sum_le_sum fun _ _ => Nat.zero_le _

theorem worth_take_mono {i j : ℕ} (h : i ≤ j) : worth (lines.take i) ≤ worth (lines.take j) := by
  have hfront : lines.take i = (lines.take j).take i := by rw [List.take_take, Nat.min_eq_left h]
  rw [hfront]
  exact worth_take_le _ i

theorem exists_lt_of_mem_take {lines : List String} {line : String} {n : ℕ}
    (h : line ∈ lines.take n) : ∃ i < n, lines[i]? = some line := by
  obtain ⟨i, hi⟩ := List.mem_iff_getElem?.1 h
  rw [List.getElem?_take] at hi
  split at hi
  · next hlt => exact ⟨i, hlt, hi⟩
  · cases hi

end Stack

namespace Profile

open Stack

/-- Whether reading some lines with a new profile accounts for all that they spell.  Either the total
is what they spell together, or, if that is no count, an overflow is reported for the first line at
which it leaves the range. -/
def AccountsFor (lines : List String) : Prop :=
  if worth lines < Samples.bound then
    ∃ p, empty.consume (lines.map .ok) = (.ok (), p) ∧ p.total.val = worth lines
  else
    ∃ n, (empty.consume (lines.map .ok)).1 = .error (.sampleOverflow n) ∧
      IsLeast {n | Samples.bound ≤ worth (lines.take n)} n

/-- Whether every line, up to the one at which the range is left, spells a count if anything. -/
def SpellsCounts (lines : List String) : Prop :=
  ∀ i line, lines[i]? = some line → worth (lines.take i) < Samples.bound →
    amount line < Samples.bound

variable {lines : List String}

/-- A new profile that reads lines to the end holds their sum. -/
theorem consume_lines_eq_ok_iff_total :
    (∃ p, empty.consume (lines.map .ok) = (.ok (), p) ∧ p.total.val = sum (ofLines lines)) ↔
      sum (ofLines lines) < Samples.bound := by
  constructor
  · rintro ⟨p, -, htotal⟩
    exact htotal ▸ p.total.lt
  · intro hlt
    have hok := consume_lines_eq_ok_iff.2 hlt
    exact ⟨_, Prod.ext hok rfl, (covers_consume hlt).total⟩

theorem consume_lines_eq_overflow_iff_isLeast (n : ℕ) :
    (empty.consume (lines.map .ok)).1 = .error (.sampleOverflow n) ↔
      IsLeast {n | Samples.bound ≤ sum (ofLines (lines.take n))} n := by
  simpa [empty] using consume_lines_eq_overflow_iff empty lines n

/-- Such lines leave the range with their counts where they leave it with what they spell. -/
theorem SpellsCounts.isLeast_sum (h : SpellsCounts lines) {n : ℕ}
    (hn : IsLeast {n | Samples.bound ≤ worth (lines.take n)} n) :
    IsLeast {n | Samples.bound ≤ sum (ofLines (lines.take n))} n := by
  obtain ⟨hat, hleast⟩ := hn
  refine ⟨?_, fun m hm => hleast (Nat.le_trans hm (sum_ofLines_le_worth _))⟩
  have hbefore (i : ℕ) (hi : i < n) : worth (lines.take i) < Samples.bound :=
    Nat.lt_of_not_le fun hge => Nat.not_lt.2 (hleast hge) hi
  have hsame : sum (ofLines (lines.take n)) = worth (lines.take n) := by
    apply sum_ofLines_eq_worth
    intro line hline
    obtain ⟨i, hi, hget⟩ := exists_lt_of_mem_take hline
    exact h i line hget (hbefore i hi)
  show Samples.bound ≤ _
  rw [hsame]
  exact hat

/-- **The amounts of all lines are accounted for** just if no line up to the one at which the range
is left spells more than a count. -/
theorem accountsFor_iff : AccountsFor lines ↔ SpellsCounts lines := by
  unfold AccountsFor
  constructor
  · intro haccounts i line hline hi
    by_contra hge
    rw [Nat.not_lt] at hge
    -- The line leaves the range with its amount, but its amount is not among the counts.
    have hworth := worth_take_add_one hline
    have hat : Samples.bound ≤ worth (lines.take (i + 1)) := by omega
    have hall : ¬ worth lines < Samples.bound := by
      have := worth_take_le lines (i + 1)
      omega
    rw [if_neg hall] at haccounts
    obtain ⟨n, hn, hleast⟩ := haccounts
    have hi1 : IsLeast {n | Samples.bound ≤ worth (lines.take n)} (i + 1) := by
      refine ⟨hat, fun m hm => Nat.lt_of_not_le fun hmi => ?_⟩
      have hmono := worth_take_mono lines hmi
      exact absurd (Nat.lt_of_le_of_lt hmono hi) (Nat.not_lt.2 hm)
    rw [hleast.unique hi1] at hn
    have hcounts : Samples.bound ≤ sum (ofLines (lines.take (i + 1))) :=
      (consume_lines_eq_overflow_iff_isLeast (i + 1)).1 hn |>.1
    rw [sum_ofLines_take_add_one hline, if_neg (Nat.not_lt.2 hge)] at hcounts
    have := sum_ofLines_le_worth (lines.take i)
    omega
  · intro h
    split_ifs with hall
    · have hsum : sum (ofLines lines) = worth lines := by
        apply sum_ofLines_eq_worth
        intro line hline
        obtain ⟨i, hget⟩ := List.mem_iff_getElem?.1 hline
        exact h i line hget (Nat.lt_of_le_of_lt (worth_take_le lines i) hall)
      rw [← hsum] at hall ⊢
      exact consume_lines_eq_ok_iff_total.2 hall
    · classical
      have hex : ∃ n, Samples.bound ≤ worth (lines.take n) :=
        ⟨lines.length, by rwa [List.take_length, ← Nat.not_lt]⟩
      have hleast : IsLeast {n | Samples.bound ≤ worth (lines.take n)} (Nat.find hex) :=
        ⟨Nat.find_spec hex, fun n hn => Nat.find_min' hex hn⟩
      exact ⟨_, (consume_lines_eq_overflow_iff_isLeast _).2 (h.isLeast_sum hleast), hleast⟩

/-- One line with one sample too many is passed over, and the work ends well without it. -/
theorem not_accountsFor_beyond_range :
    ¬ AccountsFor ["main;run 340282366920938463463374607431768211456"] := by
  rw [accountsFor_iff]
  intro h
  exact absurd (h 0 _ rfl (by decide)) (by decide +kernel)

/-- **What reading lines accounts for.**  The total is the sum of those amounts that are counts, and
an overflow is reported for the first line at which that sum leaves the range; a line with a larger
amount is passed over as a malformed one.  All that the lines spell is accounted for just if no line
up to the one at which the range is left spells more than a count. -/
theorem consume_amounts (lines : List String) :
    let counted (lines : List String) := ((lines.map amount).filter fun n => n < Samples.bound).sum
    ((∃ p, empty.consume (lines.map .ok) = (.ok (), p) ∧ p.total.val = counted lines) ↔
      counted lines < Samples.bound) ∧
    (∀ n, (empty.consume (lines.map .ok)).1 = .error (.sampleOverflow n) ↔
      IsLeast {n | Samples.bound ≤ counted (lines.take n)} n) ∧
    (∀ line, Samples.bound ≤ amount line → isMalformed line = true) ∧
    (AccountsFor lines ↔ SpellsCounts lines) := by
  intro counted
  have hcounted (lines : List String) : counted lines = sum (ofLines lines) :=
    (sum_ofLines lines).symm
  simp only [hcounted]
  exact ⟨consume_lines_eq_ok_iff_total, consume_lines_eq_overflow_iff_isLeast,
    fun line => isMalformed_of_le_amount, accountsFor_iff⟩

/-- Behind a line that leaves the range, an amount that is no count is accounted for. -/
theorem consume_amounts_behind_overflow :
    AccountsFor ["a 340282366920938463463374607431768211455", "b 1",
      "c 340282366920938463463374607431768211456"] := by
  refine (consume_amounts _).2.2.2.2 fun i line hline hi => ?_
  match i, hline, hi with
  | 0, hline, _ =>
    cases hline
    decide +kernel
  | 1, hline, _ =>
    cases hline
    decide +kernel
  | 2, _, hi => exact absurd hi (by decide +kernel)

end Profile

end HotFrames

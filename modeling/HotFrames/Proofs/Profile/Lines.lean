import HotFrames.Proofs.Profile.Consuming
import HotFrames.Proofs.Profile.Runs

/-!
# Profiles of lines

Reading a line counts it, and counts it as skipped if it is malformed, whatever becomes of its
stack (`Profile.counters_recordLine`).  Lines without faults are consumed to the end just if their
stacks fit into the total together (`Profile.consume_lines_eq_ok_iff`), and then the profile covers
them: it holds the sums of their stacks, and its counters are those of the lines (`Profile.Covers`).
What is said about whole inputs is derived from this description.
-/

namespace HotFrames

/-- Whether a line is neither blank nor that of a stack. -/
def Stack.isMalformed (line : String) : Bool :=
  !Stack.isBlankLine line && (Stack.parse? line).isNone

namespace Profile

/-! ## Counters -/

theorem counters_recordLine (p : Profile) (line : String) :
    (p.recordLine line).2.linesRead = p.linesRead + 1 ∧
      (p.recordLine line).2.skipped = p.skipped + (if Stack.isMalformed line then 1 else 0) ∧
      (p.recordLine line).2.parsed =
        p.parsed + if (p.recordLine line).1 = .ok true then 1 else 0 := by
  rcases p.recordLine_cases line with ⟨hs, h⟩ | ⟨s, _, hs, h⟩ | ⟨s, _, hs, h⟩
  · have hmalformed : Stack.isMalformed line = !Stack.isBlankLine line := by
      rw [Stack.isMalformed, hs, Option.isNone_none, Bool.and_true]
    rw [h, hmalformed]
    cases Stack.isBlankLine line <;> exact ⟨rfl, rfl, rfl⟩
  all_goals
    have hwell : Stack.isMalformed line = false := by simp [Stack.isMalformed, hs]
    rw [h, hwell]
    exact ⟨rfl, rfl, rfl⟩

/-- Lines read one by one are all counted, and so are the malformed ones among them. -/
theorem counters_run (p : Profile) (lines : List String) :
    (p.run (lines.map .recordLine)).linesRead = p.linesRead + lines.length ∧
      (p.run (lines.map .recordLine)).skipped = p.skipped + lines.countP Stack.isMalformed := by
  induction lines generalizing p with
  | nil => exact ⟨rfl, rfl⟩
  | cons line lines ih =>
    obtain ⟨hread, hskipped, -⟩ := p.counters_recordLine line
    obtain ⟨ihread, ihskipped⟩ := ih (p.recordLine line).2
    rw [List.map_cons, run, List.foldl_cons, ← run, List.length_cons, List.countP_cons]
    simp only [Call.after]
    rw [ihread, ihskipped, hread, hskipped]
    omega

theorem seen_lines (p : Profile) (lines : List String) :
    p.seen (lines.map .ok) = p.run (lines.map .recordLine) := by
  rw [seen, run, List.foldl_map, List.foldl_map]
  rfl

/-! ## Lines that are all read -/

/-- A profile covers some lines if it holds the sums of their stacks and has counted the lines and
the malformed ones among them. -/
structure Covers (p : Profile) (lines : List String) : Prop
    extends Tallies p (Stack.ofLines lines) where
  linesRead : p.linesRead = lines.length
  skipped : p.skipped = lines.countP Stack.isMalformed

variable {lines : List String}

/-- Lines are consumed to the end just if their stacks fit into the total together. -/
theorem consume_lines_eq_ok_iff :
    (empty.consume (lines.map .ok)).1 = .ok () ↔
      Stack.sum (Stack.ofLines lines) < Samples.bound := by
  constructor
  · intro hok
    by_contra hge
    obtain ⟨n, hn⟩ := (exists_consume_lines_eq_overflow_iff empty lines).2
      (by simpa [empty] using hge)
    rw [hok] at hn
    cases hn
  · intro hlt
    obtain ⟨p, hp, -⟩ := tallies_empty.consume_of_lt hlt
    rw [hp]

/-- A new profile that consumes lines to the end covers them. -/
theorem covers_consume (h : Stack.sum (Stack.ofLines lines) < Samples.bound) :
    (empty.consume (lines.map .ok)).2.Covers lines := by
  obtain ⟨p, hp, htallies⟩ := tallies_empty.consume_of_lt h
  have hstops : ∀ i, ¬ empty.Stops (lines.map .ok) i := by
    rw [← consume_eq_ok_iff, hp]
  have hseen : p = empty.run (lines.map .recordLine) := by
    rw [consume_of_not_stops hstops, seen_lines] at hp
    exact (congrArg Prod.snd hp).symm
  obtain ⟨hread, hskipped⟩ := empty.counters_run lines
  rw [hp]
  exact {
    toTallies := htallies
    linesRead := by rw [hseen, hread]; exact Nat.zero_add _
    skipped := by rw [hseen, hskipped]; exact Nat.zero_add _ }

end Profile

end HotFrames

import HotFrames.Proofs.Profile.Tables

/-!
# Runs of calls

A caller may record stacks, read lines and consume whole inputs in any order, and may go on after
an error.  A run of such calls records some stacks and refuses others (`Profile.recorded`); the
profile at its end holds exactly the sums of the recorded ones (`Profile.tallies_run`), and no sum
in it is cut off (`Profile.sums_of_run`).
-/

namespace HotFrames

namespace Profile

/-! ## Calls -/

/-- A call on a profile. -/
inductive Call
  | record (s : Stack)
  | recordLine (line : String)
  | consume (lines : List (Except Fault String))

/-- The stack of a line, if the call that reads the line records it. -/
def recordedOfLine (p : Profile) (line : String) : List Stack :=
  match (p.recordLine line).1 with
  | .ok true => (Stack.parse? line).toList
  | _ => []

/-- The stacks recorded while lines are consumed, which ends at the first error. -/
def recordedOfLines : Profile → List (Except Fault String) → List Stack
  | p, .ok line :: rest =>
    p.recordedOfLine line ++
      match p.recordLine line with
      | (.ok _, q) => q.recordedOfLines rest
      | (.error _, _) => []
  | _, _ => []

namespace Call

/-- The profile after a call.  A refused stack leaves it as it was; the other calls keep what they
did before an error. -/
def after (p : Profile) : Call → Profile
  | record s =>
    match p.record s with
    | .ok q => q
    | .error _ => p
  | recordLine line => (p.recordLine line).2
  | consume lines => (p.consume lines).2

/-- The stacks that a call records. -/
def recorded (p : Profile) : Call → List Stack
  | record s =>
    match p.record s with
    | .ok _ => [s]
    | .error _ => []
  | recordLine line => p.recordedOfLine line
  | consume lines => p.recordedOfLines lines

end Call

/-- The profile after some calls, whatever their results. -/
def run (p : Profile) (calls : List Call) : Profile := calls.foldl Call.after p

/-- The stacks recorded by some calls, in order. -/
def recorded : Profile → List Call → List Stack
  | _, [] => []
  | p, c :: calls => c.recorded p ++ recorded (c.after p) calls

/-! ## Runs keep the sums -/

namespace Tallies

variable {p : Profile} {ss : List Stack}

theorem recordLine (h : Tallies p ss) (line : String) :
    Tallies (p.recordLine line).2 (ss ++ p.recordedOfLine line) := by
  cases hs : Stack.parse? line with
  | none =>
    rw [recordedOfLine, recordLine_of_none hs, List.append_nil]
    exact h.of_sums rfl rfl rfl rfl
  | some s =>
    rcases Nat.lt_or_ge (p.total.val + s.count.val) Samples.bound with hlt | hge
    · rw [recordedOfLine, recordLine_of_lt hs hlt, hs]
      exact h.readOn.plus hlt
    · rw [recordedOfLine, recordLine_of_le hs hge, List.append_nil]
      exact h.readOn

theorem consume (h : Tallies p ss) (lines : List (Except Fault String)) :
    Tallies (p.consume lines).2 (ss ++ p.recordedOfLines lines) := by
  induction lines generalizing p ss with
  | nil => simpa [Profile.consume, recordedOfLines] using h
  | cons item rest ih =>
    cases item with
    | error f => simpa [Profile.consume, recordedOfLines] using h
    | ok line =>
      have hline := h.recordLine line
      rw [Profile.consume, recordedOfLines, ← List.append_assoc]
      rcases hr : p.recordLine line with ⟨_ | b, q⟩
      · rw [hr] at hline
        simpa using hline
      · rw [hr] at hline
        exact ih hline

theorem call (h : Tallies p ss) (c : Call) : Tallies (c.after p) (ss ++ c.recorded p) := by
  cases c with
  | record s =>
    rcases Nat.lt_or_ge (p.total.val + s.count.val) Samples.bound with hlt | hge
    · simp only [Call.after, Call.recorded, record_of_lt hlt]
      exact h.plus hlt
    · simpa only [Call.after, Call.recorded, record_of_le hge, List.append_nil] using h
  | recordLine line => exact h.recordLine line
  | consume lines => exact h.consume lines

theorem run (h : Tallies p ss) (calls : List Call) :
    Tallies (p.run calls) (ss ++ p.recorded calls) := by
  induction calls generalizing p ss with
  | nil => simpa [Profile.run, recorded] using h
  | cons c calls ih =>
    rw [recorded, ← List.append_assoc]
    exact ih (h.call c)

end Tallies

/-- The profile at the end of a run holds the sums of the stacks that the run recorded. -/
theorem tallies_run (calls : List Call) :
    Tallies (empty.run calls) (empty.recorded calls) :=
  tallies_empty.run calls

/-- **All sums of a run are exact.**  The total is the sum of the recorded counts and is a count.
The leaf table sums up to it and no table to more.  A table holds for each frame the sum of the
counts that its scope counts for the frame.  The largest count, at which an addition to a table
stops, is never passed: not by the total of a table, nor by what a further stack would add to it,
if the stack can be recorded. -/
theorem sums_of_run (calls : List Call) :
    let p := empty.run calls
    let ss := empty.recorded calls
    (p.total.val = Stack.sum ss ∧ p.total.val ≤ Samples.bound - 1) ∧
      p.leaf.sum = p.total.val ∧ (∀ n, (p.spaces.get n).sum ≤ p.total.val) ∧
      (∀ frame, (p.leaf.get frame).val = Scope.leaf.samples ss frame) ∧
      (∀ n frame, ((p.spaces.get n).get frame).val = (Scope.within n).samples ss frame) ∧
      (∀ scope, (p.table scope).total.val = (p.table scope).sum) ∧
      ∀ s q, p.record s = .ok q → ∀ scope frame, scope.frame? s = some frame →
        ((q.table scope).get frame).val = ((p.table scope).get frame).val + s.count.val := by
  intro p ss
  -- All parts follow from what a profile with these sums holds; the run matters no further.
  have h : Tallies p ss := tallies_run calls
  refine ⟨⟨h.total, p.total.val_le⟩, h.sum_leaf, fun n => h.sum_table_le (.within n),
    h.val_get .leaf, fun n => h.val_get (.within n), fun scope => ?_, ?_⟩
  · have hle := h.sum_table_le scope
    have hlt := p.total.lt
    rw [FrameTable.val_total]
    omega
  · intro s q hq scope frame hframe
    obtain ⟨hlt, rfl⟩ := record_eq_ok_iff.1 hq
    have hfit := h.addition_lt hlt scope frame
    rw [table_plus, Scope.addition?, hframe]
    simp only [Option.map_some, FrameTable.get_add, if_pos, Samples.val_addSat]
    omega

end Profile

end HotFrames

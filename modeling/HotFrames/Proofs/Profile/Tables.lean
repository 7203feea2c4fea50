import HotFrames.Profile
import HotFrames.Proofs.FrameTable

/-!
# What a profile holds

A profile holds the sums of the stacks recorded in it: the total is the sum of their counts, and
each table is what one addition for each counted stack makes of the empty table
(`Profile.Tallies`).  A recorded stack adds itself to these stacks (`Tallies.plus`), and lines whose
stacks fit into the total are consumed to the end (`Tallies.consume_of_lt`).  No table holds more
than the total does, which the checked sum keeps in the range of a count; so the sums in the tables
are exact (`Tallies.val_get`, `Tallies.sum_table_le`).
-/

namespace HotFrames

/-- The samples of some stacks together. -/
def Stack.sum (ss : List Stack) : ℕ := (ss.map fun s => s.count.val).sum

/-- The stacks on some lines.  A blank or malformed line holds none. -/
def Stack.ofLines (lines : List String) : List Stack := lines.filterMap Stack.parse?

theorem Stack.sum_filter_le (ss : List Stack) (p : Stack → Bool) :
    Stack.sum (ss.filter p) ≤ Stack.sum ss :=
  (List.filter_sublist.map _).sum_le_sum fun _ _ => Nat.zero_le _

namespace Profile

/-! ## The frames that scopes count -/

namespace Scope

/-- The frame for which a scope counts a stack: the last frame, which is the empty name for a stack
without frames; or the last one among the frames that contain a marker of a namespace. -/
def frame? : Scope → Stack → Option String
  | leaf, s => some (s.frames.getLast?.getD "")
  | within n, s =>
    (s.frames.filter fun frame => ∃ marker ∈ n.markers, marker.toList <:+: frame.toList).getLast?

/-- The samples of the stacks that a scope counts for a frame. -/
def samples (scope : Scope) (ss : List Stack) (frame : String) : ℕ :=
  Stack.sum (ss.filter fun s => scope.frame? s = some frame)

/-- What a stack adds to the table of a scope. -/
def addition? (scope : Scope) (s : Stack) : Option (String × Samples) :=
  (scope.frame? s).map fun frame => (frame, s.count)

theorem frame?_within (n : Namespace) (s : Stack) : (within n).frame? s = n.deepest? s.frames := by
  have hcontains : (s.frames.filter fun frame =>
      ∃ marker ∈ n.markers, marker.toList <:+: frame.toList) = s.frames.filter n.contains := by
    apply List.filter_congr
    intro frame _
    rw [Bool.eq_iff_iff, decide_eq_true_eq, Namespace.contains_iff]
  rw [frame?, hcontains, Namespace.deepest?, ← List.head?_reverse, ← List.filter_reverse,
    List.head?_filter]

theorem samples_le_sum (scope : Scope) (ss : List Stack) (frame : String) :
    scope.samples ss frame ≤ Stack.sum ss :=
  Stack.sum_filter_le ss _

theorem added_additions (scope : Scope) (ss : List Stack) (frame : String) :
    FrameTable.added (ss.filterMap scope.addition?) frame = scope.samples ss frame := by
  induction ss with
  | nil => rfl
  | cons s ss ih =>
    simp only [FrameTable.added, samples, Stack.sum] at ih ⊢
    cases hf : scope.frame? s with
    | none => simp [addition?, hf, ih]
    | some other =>
      by_cases h : other = frame <;> simp [addition?, hf, h, ih]

theorem map_fst_additions (scope : Scope) (ss : List Stack) :
    (ss.filterMap scope.addition?).map Prod.fst = ss.filterMap scope.frame? := by
  rw [List.map_filterMap]
  apply List.filterMap_congr
  intro s _
  simp [addition?, Function.comp_def]

/-- What a table gains is what the stacks have that its scope counts, each of them once. -/
theorem sum_additions (scope : Scope) (ss : List Stack) :
    ((ss.filterMap scope.addition?).map fun e => e.2.val).sum =
      Stack.sum (ss.filter fun s => (scope.frame? s).isSome) := by
  induction ss with
  | nil => rfl
  | cons s ss ih =>
    simp only [Stack.sum] at ih ⊢
    cases hf : scope.frame? s <;> simp [addition?, hf, ih]

theorem sum_additions_le (scope : Scope) (ss : List Stack) :
    ((ss.filterMap scope.addition?).map fun e => e.2.val).sum ≤ Stack.sum ss := by
  rw [sum_additions]
  exact Stack.sum_filter_le ss _

/-- Every stack has a leaf. -/
theorem sum_additions_leaf (ss : List Stack) :
    ((ss.filterMap leaf.addition?).map fun e => e.2.val).sum = Stack.sum ss := by
  rw [sum_additions]
  simp [frame?]

end Scope

/-! ## Steps -/

/-- A profile with one more stack, whose count fits into the total. -/
def plus (p : Profile) (s : Stack) (h : p.total.val + s.count.val < Samples.bound) : Profile :=
  { p with
    total := ⟨p.total.val + s.count.val, h⟩
    leaf := p.leaf.add s.leaf s.count
    spaces := addToSpaces p.spaces s
    parsed := p.parsed + 1 }

/-- A profile that has read one more line. -/
def readOn (p : Profile) : Profile := { p with linesRead := p.linesRead + 1 }

theorem record_of_lt {p : Profile} {s : Stack} (h : p.total.val + s.count.val < Samples.bound) :
    p.record s = .ok (p.plus s h) := by
  have hadd : p.total.add? s.count = some ⟨p.total.val + s.count.val, h⟩ :=
    Samples.add?_eq_some_iff.2 rfl
  rw [record, hadd]
  rfl

theorem record_of_le {p : Profile} {s : Stack} (h : Samples.bound ≤ p.total.val + s.count.val) :
    p.record s = .error (.sampleOverflow p.linesRead) := by
  rw [record, Samples.add?_eq_none_iff.2 h]

theorem record_eq_ok_iff {p q : Profile} {s : Stack} :
    p.record s = .ok q ↔ ∃ h : p.total.val + s.count.val < Samples.bound, q = p.plus s h := by
  rcases Nat.lt_or_ge (p.total.val + s.count.val) Samples.bound with h | h
  · rw [record_of_lt h, Except.ok.injEq]
    exact ⟨fun he => ⟨h, he.symm⟩, fun ⟨_, he⟩ => he.symm⟩
  · rw [record_of_le h]
    exact ⟨fun he => (nomatch he), fun ⟨hlt, _⟩ => absurd hlt (Nat.not_lt.2 h)⟩

/-- The table of a scope gains what the scope counts of the stack. -/
theorem table_plus (p : Profile) (s : Stack) (h : p.total.val + s.count.val < Samples.bound)
    (scope : Scope) :
    (p.plus s h).table scope =
      match scope.addition? s with
      | some e => (p.table scope).add e.1 e.2
      | none => p.table scope := by
  cases scope with
  | leaf => rfl
  | within n =>
    rw [Scope.addition?, Scope.frame?_within]
    simp only [table, plus, addToSpaces, PerNamespace.get_ofFn]
    cases n.deepest? s.frames <;> rfl

theorem recordLine_of_none {p : Profile} {line : String} (h : Stack.parse? line = none) :
    p.recordLine line = (.ok false,
      { p.readOn with skipped := p.skipped + if Stack.isBlankLine line then 0 else 1 }) := by
  simp only [recordLine, h]
  split <;> rfl

theorem recordLine_of_some {p : Profile} {line : String} {s : Stack}
    (hs : Stack.parse? line = some s) :
    p.recordLine line =
      match p.readOn.record s with
      | .ok q => (.ok true, q)
      | .error e => (.error e, p.readOn) := by
  simp only [recordLine, hs]
  rfl

theorem recordLine_of_lt {p : Profile} {line : String} {s : Stack} (hs : Stack.parse? line = some s)
    (h : p.total.val + s.count.val < Samples.bound) :
    p.recordLine line = (.ok true, p.readOn.plus s h) := by
  rw [recordLine_of_some hs, record_of_lt (p := p.readOn) h]

theorem recordLine_of_le {p : Profile} {line : String} {s : Stack} (hs : Stack.parse? line = some s)
    (h : Samples.bound ≤ p.total.val + s.count.val) :
    p.recordLine line = (.error (.sampleOverflow (p.linesRead + 1)), p.readOn) := by
  rw [recordLine_of_some hs, record_of_le (p := p.readOn) h]
  rfl

/-- Reading a line leaves it, records its stack, or refuses the stack. -/
theorem recordLine_cases (p : Profile) (line : String) :
    (Stack.parse? line = none ∧ p.recordLine line = (.ok false,
      { p.readOn with skipped := p.skipped + if Stack.isBlankLine line then 0 else 1 })) ∨
    (∃ s, ∃ h : p.total.val + s.count.val < Samples.bound,
      Stack.parse? line = some s ∧ p.recordLine line = (.ok true, p.readOn.plus s h)) ∨
    ∃ s, Samples.bound ≤ p.total.val + s.count.val ∧ Stack.parse? line = some s ∧
      p.recordLine line = (.error (.sampleOverflow (p.linesRead + 1)), p.readOn) := by
  cases hs : Stack.parse? line with
  | none => exact .inl ⟨rfl, recordLine_of_none hs⟩
  | some s =>
    rcases Nat.lt_or_ge (p.total.val + s.count.val) Samples.bound with hlt | hge
    · exact .inr (.inl ⟨s, hlt, rfl, recordLine_of_lt hs hlt⟩)
    · exact .inr (.inr ⟨s, hge, rfl, recordLine_of_le hs hge⟩)

/-! ## The sums -/

/-- A profile holds the sums of some stacks: their counts in the total, in each table what the
additions of the stacks make of the empty table, and their number. -/
structure Tallies (p : Profile) (ss : List Stack) : Prop where
  total : p.total.val = Stack.sum ss
  table (scope : Scope) : p.table scope = .ofAdditions (ss.filterMap scope.addition?)
  parsed : p.parsed = ss.length

theorem tallies_empty : Tallies empty [] where
  total := rfl
  table scope := by
    rcases scope with _ | _ | _ | _ <;> rfl
  parsed := rfl

namespace Tallies

variable {p q : Profile} {ss : List Stack}

/-- What a profile holds is settled by its sums and the number of its stacks. -/
theorem of_sums (h : Tallies p ss) (htotal : q.total = p.total) (hleaf : q.leaf = p.leaf)
    (hspaces : q.spaces = p.spaces) (hparsed : q.parsed = p.parsed) : Tallies q ss where
  total := htotal ▸ h.total
  table scope := by
    rw [← h.table scope]
    cases scope with
    | leaf => exact hleaf
    | within n => exact congrArg (·.get n) hspaces
  parsed := hparsed ▸ h.parsed

theorem plus (h : Tallies p ss) {s : Stack} (hs : p.total.val + s.count.val < Samples.bound) :
    Tallies (p.plus s hs) (ss ++ [s]) where
  total := by
    show p.total.val + s.count.val = Stack.sum (ss ++ [s])
    simp [Stack.sum, h.total]
  table scope := by
    rw [table_plus, List.filterMap_append, h.table scope]
    cases ha : scope.addition? s with
    | none => simp [ha]
    | some e => simp [ha, FrameTable.ofAdditions_append_singleton]
  parsed := by
    show p.parsed + 1 = (ss ++ [s]).length
    simp [h.parsed]

theorem readOn (h : Tallies p ss) : Tallies p.readOn ss := h.of_sums rfl rfl rfl rfl

/-! ### Exactness -/

theorem sum_lt (h : Tallies p ss) : Stack.sum ss < Samples.bound := h.total ▸ p.total.lt

/-- What a table holds for a frame is not cut off. -/
theorem val_get (h : Tallies p ss) (scope : Scope) (frame : String) :
    ((p.table scope).get frame).val = scope.samples ss frame := by
  have hle : scope.samples ss frame ≤ Stack.sum ss := scope.samples_le_sum ss frame
  have hlt : Stack.sum ss < Samples.bound := h.sum_lt
  rw [h.table, FrameTable.val_get_ofAdditions, Scope.added_additions]
  omega

theorem frames (h : Tallies p ss) (scope : Scope) :
    (p.table scope).frames = (ss.filterMap scope.frame?).eraseDups := by
  rw [h.table, FrameTable.frames_ofAdditions, Scope.map_fst_additions]

theorem sum_table (h : Tallies p ss) (scope : Scope) :
    (p.table scope).sum = ((ss.filterMap scope.addition?).map fun e => e.2.val).sum := by
  have hle := scope.sum_additions_le ss
  have hlt : Stack.sum ss < Samples.bound := h.sum_lt
  rw [h.table, FrameTable.sum_ofAdditions (by omega)]

/-- No table outgrows the total. -/
theorem sum_table_le (h : Tallies p ss) (scope : Scope) : (p.table scope).sum ≤ p.total.val := by
  rw [h.sum_table, h.total]
  exact scope.sum_additions_le ss

theorem sum_leaf (h : Tallies p ss) : p.leaf.sum = p.total.val := by
  rw [h.total, ← Scope.sum_additions_leaf]
  exact h.sum_table .leaf

/-- An addition that comes with a stack that fits into the total fits into its table. -/
theorem addition_lt (h : Tallies p ss) {s : Stack}
    (hs : p.total.val + s.count.val < Samples.bound) (scope : Scope) (frame : String) :
    ((p.table scope).get frame).val + s.count.val < Samples.bound := by
  have hget := (p.table scope).val_get_le_sum frame
  have hsum := h.sum_table_le scope
  omega

/-! ### Lines -/

/-- Lines whose stacks fit into the total together are consumed to the end. -/
theorem consume_of_lt (h : Tallies p ss) {lines : List String}
    (hlt : Stack.sum (ss ++ Stack.ofLines lines) < Samples.bound) :
    ∃ q, p.consume (lines.map .ok) = (.ok (), q) ∧ Tallies q (ss ++ Stack.ofLines lines) := by
  induction lines generalizing p ss with
  | nil => exact ⟨p, rfl, by simpa [Stack.ofLines] using h⟩
  | cons line lines ih =>
    cases hs : Stack.parse? line with
    | none =>
      have hrest : Stack.ofLines (line :: lines) = Stack.ofLines lines := by
        simp [Stack.ofLines, hs]
      rw [hrest] at hlt ⊢
      rw [List.map_cons, consume, recordLine_of_none hs]
      exact ih (h.of_sums rfl rfl rfl rfl) hlt
    | some s =>
      have hrest : ss ++ Stack.ofLines (line :: lines) = ss ++ [s] ++ Stack.ofLines lines := by
        simp [Stack.ofLines, hs]
      rw [hrest] at hlt ⊢
      have hfits : p.total.val + s.count.val < Samples.bound := by
        rw [h.total]
        simp only [Stack.sum, List.map_append, List.sum_append, List.map_singleton,
          List.sum_singleton] at hlt ⊢
        omega
      rw [List.map_cons, consume, recordLine_of_lt hs hfits]
      exact ih (h.readOn.plus hfits) hlt

end Tallies

end Profile

end HotFrames

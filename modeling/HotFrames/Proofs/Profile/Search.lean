import HotFrames.Proofs.Namespace
import HotFrames.Proofs.Profile.Lines

/-!
# Namespaces as a search in the lines

The table of a namespace adds up the counts of the stacks with a frame of the namespace
(`Profile.Tallies.val_total_table`), each of them once.  These are the stacks on the lines in which
a search finds a marker (`Profile.Scope.filter_ofLines_within`), so that the share of a namespace
can be checked against the text of the input (`Profile.total_within_eq`).
-/

namespace HotFrames

namespace Stack

/-- A part of some stacks has all their samples just if the others have none. -/
theorem sum_filter_eq_iff (ss : List Stack) (p : Stack → Bool) :
    sum (ss.filter p) = sum ss ↔ ∀ s ∈ ss, s.count ≠ .zero → p s := by
  induction ss with
  | nil => simp
  | cons s ss ih =>
    have hle := sum_filter_le ss p
    have hzero : s.count = .zero ↔ s.count.val = 0 := ⟨fun h => h ▸ rfl, fun h => Samples.ext h⟩
    rw [List.forall_mem_cons, ← ih, ne_eq, hzero]
    simp only [sum, List.map_cons, List.sum_cons] at hle ⊢
    cases hp : p s
    · simp [hp]
      omega
    · simp [hp]

end Stack

namespace Profile

namespace Scope

/-- A namespace counts the stack on a line just if it occurs in the line. -/
theorem isSome_frame?_within {line : String} {s : Stack} (n : Namespace)
    (hs : Stack.parse? line = some s) : ((within n).frame? s).isSome ↔ n.OccursIn line := by
  rw [n.occursIn_line_iff hs, frame?_within, Namespace.deepest?, List.find?_isSome]
  simp only [List.mem_reverse, Namespace.contains_iff]
  rfl

theorem occursIn_of_frame?_within {n : Namespace} {s : Stack} {frame : String}
    (h : (within n).frame? s = some frame) : n.OccursIn frame := by
  rw [frame?_within] at h
  exact Namespace.contains_iff.1 (List.find?_some h)

/-- The stacks that a namespace counts are those on the lines in which it occurs. -/
theorem filter_ofLines_within (n : Namespace) (lines : List String) :
    (Stack.ofLines lines).filter (fun s => ((within n).frame? s).isSome) =
      Stack.ofLines (lines.filter fun line => n.OccursIn line) := by
  rw [Stack.ofLines, Stack.ofLines, List.filter_filterMap, List.filterMap_filter]
  apply List.filterMap_congr
  intro line _
  cases hs : Stack.parse? line with
  | none => simp
  | some s =>
    rw [Option.filter_some]
    simp only [isSome_frame?_within n hs, decide_eq_true_eq]

end Scope

namespace Tallies

variable {p : Profile} {ss : List Stack} (h : Tallies p ss) (scope : Scope)
include h

/-- The total of a table is what the stacks have that its scope counts. -/
theorem val_total_table :
    (p.table scope).total.val = Stack.sum (ss.filter fun s => (scope.frame? s).isSome) := by
  have hle := h.sum_table_le scope
  have hlt := p.total.lt
  rw [FrameTable.val_total, ← scope.sum_additions, ← h.sum_table]
  omega

/-- A table has all samples just if its scope counts every stack that has any. -/
theorem total_table_eq_iff : (p.table scope).total = p.total ↔
    ∀ s ∈ ss, s.count ≠ .zero → (scope.frame? s).isSome := by
  rw [Samples.ext_iff, h.val_total_table, h.total, Stack.sum_filter_eq_iff]

/-- A recorded line adds its count to a table once, or nothing. -/
theorem val_total_table_recordLine {line : String} {s : Stack} {q : Profile}
    (hs : Stack.parse? line = some s) (hq : p.recordLine line = (.ok true, q)) :
    (q.table scope).total.val =
      (p.table scope).total.val + if (scope.frame? s).isSome then s.count.val else 0 := by
  have hrecorded : p.recordedOfLine line = [s] := by rw [recordedOfLine, hq, hs]; rfl
  have hnext : Tallies q (ss ++ [s]) := by
    have hline := h.recordLine line
    rwa [hrecorded, hq] at hline
  rw [hnext.val_total_table, h.val_total_table, List.filter_append, Stack.sum_append,
    List.filter_singleton, Bool.cond_eq_ite]
  split_ifs <;> rfl

end Tallies

/-- **The share of a namespace is found by a search in the lines.**  If the lines are all read, the
table of the namespace has the samples of the lines in which one of its markers occurs, wherever
that is, and every frame in it contains a marker.  It has all samples just if a marker occurs in
every line that has any.  One more line adds its count once, however many of its frames belong to
the namespace, or nothing. -/
theorem total_within_eq (n : Namespace) {lines : List String}
    (hok : (empty.consume (lines.map .ok)).1 = .ok ()) :
    let p := (empty.consume (lines.map .ok)).2
    let table := p.spaces.get n
    table.total.val = Stack.sum (Stack.ofLines (lines.filter fun line => n.OccursIn line)) ∧
    (∀ frame ∈ table.frames, n.OccursIn frame) ∧
    (table.total = p.total ↔
      ∀ line ∈ lines, ∀ s, Stack.parse? line = some s → s.count ≠ .zero → n.OccursIn line) ∧
    ∀ line s q, Stack.parse? line = some s → p.recordLine line = (.ok true, q) →
      (q.spaces.get n).total.val =
        table.total.val + if n.OccursIn line then s.count.val else 0 := by
  intro p table
  have h : Tallies p (Stack.ofLines lines) :=
    (covers_consume (consume_lines_eq_ok_iff.1 hok)).toTallies
  refine ⟨?_, fun frame hframe => ?_, ?_, fun line s q hs hq => ?_⟩
  · rw [← Scope.filter_ofLines_within]
    exact h.val_total_table (.within n)
  · have hframe : frame ∈ (p.table (.within n)).frames := hframe
    rw [h.frames, List.mem_eraseDups, List.mem_filterMap] at hframe
    obtain ⟨s, -, hs⟩ := hframe
    exact Scope.occursIn_of_frame?_within hs
  · refine (h.total_table_eq_iff (.within n)).trans ?_
    rw [Stack.ofLines]
    simp only [List.mem_filterMap, forall_exists_index, and_imp]
    constructor
    · intro hsome line hline s hs hne
      exact (Scope.isSome_frame?_within n hs).1 (hsome s line hline hs hne)
    · intro hoccurs s line hline hs hne
      exact (Scope.isSome_frame?_within n hs).2 (hoccurs line hline s hs hne)
  · have hline := h.val_total_table_recordLine (.within n) hs hq
    simp only [Scope.isSome_frame?_within n hs] at hline
    exact hline

/-- A marker in two frames of one stack, one with spaces around it, and lines without samples or
without a count. -/
theorem total_within_repeated_marker :
    let lines := ["no/ssb/dlp/pseudo/core/A;no/ssb/dlp/pseudo/core/B;c 3",
      "  x; no/ssb/dlp/pseudo/core ;y 4\t", "no/ssb/dlp/pseudo/core", "d 0"]
    let p := (empty.consume (lines.map .ok)).2
    (empty.consume (lines.map .ok)).1 = .ok () ∧ (p.spaces.get .core).total.val = 7 ∧
      ∀ frame ∈ (p.spaces.get .core).frames, Namespace.core.OccursIn frame := by
  intro lines p
  have hok : (empty.consume (lines.map .ok)).1 = .ok () := by decide +kernel
  obtain ⟨htotal, hframes, -⟩ := total_within_eq .core hok
  exact ⟨hok, htotal.trans (by decide +kernel), hframes⟩

end Profile

end HotFrames

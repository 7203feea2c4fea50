import HotFrames.Proofs.Profile.Lines

/-!
# Lines in another order

The stacks of reordered lines are the same stacks in another order, so they fit into the total
together or not, and what a scope counts for a frame is the same (`Profile.Scope.samples_of_perm`).
The order decides where an overflow is found, in which order the frames of a table were first seen,
and which of several frames with the same count are still listed at the end of a ranking; it decides
nothing else (`Profile.consume_perm`).
-/

namespace HotFrames

theorem Stack.sum_of_perm {ss ss' : List Stack} (h : ss.Perm ss') : Stack.sum ss = Stack.sum ss' :=
  (h.map _).sum_eq

namespace Profile

theorem Scope.samples_of_perm {ss ss' : List Stack} (h : ss.Perm ss') (scope : Scope)
    (frame : String) : scope.samples ss frame = scope.samples ss' frame :=
  Stack.sum_of_perm (h.filter _)

namespace Tallies

variable {p q : Profile} {ss ss' : List Stack} (hp : Tallies p ss) (hq : Tallies q ss')
  (h : ss.Perm ss')
include hp hq h

theorem frames_perm (scope : Scope) : (p.table scope).frames.Perm (q.table scope).frames := by
  refine (List.perm_ext_iff_of_nodup (p.table scope).nodup (q.table scope).nodup).2 fun frame => ?_
  show frame ∈ (p.table scope).frames ↔ frame ∈ (q.table scope).frames
  rw [hp.frames, hq.frames, List.mem_eraseDups, List.mem_eraseDups]
  exact (h.filterMap _).mem_iff

theorem get_table_eq (scope : Scope) (frame : String) :
    (p.table scope).get frame = (q.table scope).get frame :=
  Samples.ext (by rw [hp.val_get, hq.val_get, scope.samples_of_perm h])

/-- The same stacks in another order leave the same entries in another order. -/
theorem entries_perm (scope : Scope) : (p.table scope).entries.Perm (q.table scope).entries :=
  FrameTable.perm_entries (hp.frames_perm hq h scope) (hp.get_table_eq hq h scope)

end Tallies

/-- **The order of the lines decides no sum.**  Reordered lines overflow together, and if they do
not, they leave the same total, the same counters and tables that hold the same for every frame.
The first `n` of a ranking have the same counts for both orders, and a frame with more samples than
the smallest of them is listed for both. -/
theorem consume_perm {lines lines' : List String} (h : lines.Perm lines') :
    let read := empty.consume (lines.map .ok)
    let read' := empty.consume (lines'.map .ok)
    ((∃ n, read.1 = .error (.sampleOverflow n)) ↔ ∃ n, read'.1 = .error (.sampleOverflow n)) ∧
    (read.1 = .ok () ↔ read'.1 = .ok ()) ∧
    (read.1 = .ok () →
      (read.2.total = read'.2.total ∧ read.2.linesRead = read'.2.linesRead ∧
        read.2.parsed = read'.2.parsed ∧ read.2.skipped = read'.2.skipped) ∧
      ∀ scope,
        let table := read.2.table scope
        let table' := read'.2.table scope
        table.size = table'.size ∧ (∀ frame, table.get frame = table'.get frame) ∧
        ∀ n, (table.top n).map Prod.snd = (table'.top n).map Prod.snd ∧
          ∀ frame, ∀ least ∈ table.top n, least.2.val < (table.get frame).val →
            (frame, table.get frame) ∈ table.top n ∧ (frame, table.get frame) ∈ table'.top n) := by
  intro read read'
  have hstacks : (Stack.ofLines lines).Perm (Stack.ofLines lines') := h.filterMap _
  have hsum := Stack.sum_of_perm hstacks
  refine ⟨?_, ?_, fun hok => ?_⟩
  · rw [exists_consume_lines_eq_overflow_iff, exists_consume_lines_eq_overflow_iff, hsum]
  · rw [consume_lines_eq_ok_iff, consume_lines_eq_ok_iff, hsum]
  have hfits : Stack.sum (Stack.ofLines lines) < Samples.bound := consume_lines_eq_ok_iff.1 hok
  have hp : read.2.Covers lines := covers_consume hfits
  have hq : read'.2.Covers lines' := covers_consume (hsum ▸ hfits)
  refine ⟨⟨Samples.ext ?_, ?_, ?_, ?_⟩, fun scope => ?_⟩
  · rw [hp.total, hq.total, hsum]
  · rw [hp.linesRead, hq.linesRead, h.length_eq]
  · rw [hp.parsed, hq.parsed, hstacks.length_eq]
  · rw [hp.skipped, hq.skipped, h.countP_eq]
  intro table table'
  have hentries : table.entries.Perm table'.entries :=
    hp.toTallies.entries_perm hq.toTallies hstacks scope
  have hget := hp.toTallies.get_table_eq hq.toTallies hstacks scope
  refine ⟨hentries.length_eq, hget, fun n => ?_⟩
  have hcounts := FrameTable.map_snd_top_of_perm hentries n
  refine ⟨hcounts, fun frame least hleast hlt => ?_⟩
  -- The other ranking lists the same counts, hence some frame with the count of `least`.
  obtain ⟨least', hleast', hsame⟩ : ∃ least' ∈ table'.top n, least'.2 = least.2 := by
    rw [← List.mem_map, ← hcounts]
    exact List.mem_map_of_mem hleast
  refine ⟨FrameTable.mem_top_of_lt hleast hlt, ?_⟩
  rw [hget] at hlt ⊢
  exact FrameTable.mem_top_of_lt hleast' (hsame ▸ hlt)

/-- Two leaves of two samples each, which are seen in either order. -/
theorem consume_perm_tied_leaves :
    let lines := ["a;x 1", "", "b;y 2", "c;z 3", "no count", "b;x 1"]
    let lines' := ["b;y 2", "c;z 3", "b;x 1", "no count", "a;x 1", ""]
    let table := (empty.consume (lines.map .ok)).2.leaf
    let table' := (empty.consume (lines'.map .ok)).2.leaf
    lines.Perm lines' ∧ (empty.consume (lines.map .ok)).1 = .ok () ∧
      table.frames = ["x", "y", "z"] ∧ table'.frames = ["y", "z", "x"] ∧
      (table.top 2).map Prod.snd = (table'.top 2).map Prod.snd ∧
      (empty.consume (lines'.map .ok)).1 = .ok () := by
  intro lines lines' table table'
  have hperm : lines.Perm lines' := by decide
  have hok : (empty.consume (lines.map .ok)).1 = .ok () := by decide
  obtain ⟨-, hiff, hsame⟩ := consume_perm hperm
  exact ⟨hperm, hok, by decide, by decide, (((hsame hok).2 .leaf).2.2 2).1, hiff.1 hok⟩

end Profile

end HotFrames

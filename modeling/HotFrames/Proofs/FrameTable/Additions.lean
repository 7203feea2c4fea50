import HotFrames.Proofs.FrameTable

/-!
# Frame tables and what was added to them

The total of a table is cut off twice: each entry stops at the largest count, and so does the sum of
the entries.  Together that is one cut of everything added (`FrameTable.val_total_ofAdditions`), since
an addition that is cut off leaves a sum that is cut off with it (`FrameTable.min_sum_add`).  The
frames of a table stand in the order of their first additions (`FrameTable.pairwise_firstAdded`).
-/

namespace HotFrames

namespace FrameTable

/-! ## Sums -/

/-- An addition adds to the sum of the entries, as far as a count goes, what it adds to its frame. -/
theorem min_sum_add (t : FrameTable) (frame : String) (samples : Samples) :
    min (t.add frame samples).sum (Samples.bound - 1) =
      min (t.sum + samples.val) (Samples.bound - 1) := by
  by_cases hf : frame ∈ t.frames
  · obtain ⟨before, after, h1, h2⟩ := entries_add_of_mem hf samples
    simp only [sum, h1, h2, List.map_append, List.map_cons, List.sum_append, List.sum_cons,
      Samples.val_addSat]
    omega
  · simp [sum, entries_add_of_not_mem hf]

theorem min_sum_ofAdditions (additions : List (String × Samples)) :
    min (ofAdditions additions).sum (Samples.bound - 1) =
      min (additions.map fun e => e.2.val).sum (Samples.bound - 1) := by
  induction additions using List.reverseRecOn with
  | nil => rfl
  | append_singleton additions e ih =>
    rw [ofAdditions_append_singleton, min_sum_add, List.map_append, List.sum_append,
      List.map_singleton, List.sum_singleton]
    omega

/-- The total is the exact sum of everything added, cut off at the largest count. -/
theorem val_total_ofAdditions (additions : List (String × Samples)) :
    (ofAdditions additions).total.val =
      min (additions.map fun e => e.2.val).sum (Samples.bound - 1) := by
  rw [val_total, min_sum_ofAdditions]

/-! ## Order -/

variable {additions : List (String × Samples)}

/-- The place of the first addition to a frame. -/
def firstAdded (additions : List (String × Samples)) (frame : String) : ℕ :=
  (additions.map Prod.fst).idxOf frame

theorem mem_frames_ofAdditions {frame : String} :
    frame ∈ (ofAdditions additions).frames ↔ frame ∈ additions.map Prod.fst := by
  rw [frames_ofAdditions, List.mem_eraseDups]

theorem pairwise_idxOf_eraseDups (frames : List String) :
    frames.eraseDups.Pairwise fun a b => frames.idxOf a < frames.idxOf b := by
  induction frames using List.reverseRecOn with
  | nil => exact List.Pairwise.nil
  | append_singleton frames frame ih =>
    -- The frames so far keep their places, and a new one comes behind all of them.
    have hkeep : frames.eraseDups.Pairwise fun a b =>
        (frames ++ [frame]).idxOf a < (frames ++ [frame]).idxOf b := by
      apply ih.imp_of_mem
      intro a b ha hb hab
      rw [List.mem_eraseDups] at ha hb
      rwa [List.idxOf_append_of_mem ha, List.idxOf_append_of_mem hb]
    rw [eraseDups_append_singleton]
    split_ifs with hmem
    · exact hkeep
    · rw [List.pairwise_append]
      refine ⟨hkeep, List.pairwise_singleton _ _, fun a ha b hb => ?_⟩
      rw [List.mem_eraseDups] at ha
      rw [List.mem_singleton.1 hb, List.idxOf_append_of_mem ha, List.idxOf_append_of_notMem hmem]
      exact Nat.lt_of_lt_of_le (List.idxOf_lt_length_iff.2 ha) (Nat.le_add_right _ _)

/-- The frames stand in the order of their first additions. -/
theorem pairwise_firstAdded (additions : List (String × Samples)) :
    (ofAdditions additions).frames.Pairwise fun a b =>
      firstAdded additions a < firstAdded additions b := by
  rw [frames_ofAdditions]
  exact pairwise_idxOf_eraseDups _

/-- There are as many slots as there are different frames among the additions. -/
theorem size_ofAdditions (additions : List (String × Samples)) :
    (ofAdditions additions).size = (additions.map Prod.fst).toFinset.card := by
  have hframes : (ofAdditions additions).frames.toFinset = (additions.map Prod.fst).toFinset := by
    ext frame
    rw [List.mem_toFinset, List.mem_toFinset, mem_frames_ofAdditions]
  have hnodup : (ofAdditions additions).frames.Nodup := (ofAdditions additions).nodup
  rw [← hframes, List.toFinset_card_of_nodup hnodup, size, frames, List.length_map]

end FrameTable

end HotFrames

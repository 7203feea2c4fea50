import HotFrames.FrameTable
import Mathlib

/-!
# The laws of frame tables

The entries of a table are its frames with what `get` gives for each (`FrameTable.eq_map_get`), and
an addition is described by what it does to these two (`frames_add`, `get_add`).  A table built by
additions alone (`FrameTable.ofAdditions`) holds the frames in the order in which they were first
added and for each the exact sum of what was added, cut off at the largest count.  Where everything
added fits into a count together, nothing is cut off, and the entries sum up to what was added
(`sum_ofAdditions`).  The ranking is stable (`pairwise_ranked`).  Tables that hold the same in
different orders rank the same counts (`map_snd_ranked_of_perm`), and they can differ only in
which frames of the smallest listed count they list (`mem_top_of_lt`).
-/

namespace HotFrames

namespace FrameTable

/-! ## Entries -/

theorem mem_frames_iff {t : FrameTable} {frame : String} :
    frame ∈ t.frames ↔ ∃ samples, (frame, samples) ∈ t.entries := by
  simp [frames]

theorem get_of_mem {t : FrameTable} {frame : String} {samples : Samples}
    (h : (frame, samples) ∈ t.entries) : t.get frame = samples := by
  obtain ⟨i, hi⟩ := List.mem_iff_getElem?.1 h
  rw [get, slot?_eq_some_iff.2 ⟨samples, hi⟩, Option.bind_some, hi]

theorem get_of_not_mem {t : FrameTable} {frame : String} (h : frame ∉ t.frames) :
    t.get frame = .zero := by
  rw [get, slot?_eq_none_iff.2 h, Option.bind_none]

/-- Entries of a table are their frames with what the table holds for them. -/
theorem eq_map_get {t : FrameTable} {entries : List (String × Samples)}
    (h : ∀ e ∈ entries, e ∈ t.entries) :
    entries = (entries.map Prod.fst).map fun frame => (frame, t.get frame) := by
  rw [List.map_map]
  refine (List.map_id _).symm.trans (List.map_congr_left fun e he => ?_)
  have hget : t.get e.1 = e.2 := get_of_mem (h e he)
  exact Prod.ext rfl hget.symm

/-! ## Additions -/

theorem entries_add_of_not_mem {t : FrameTable} {frame : String} (h : frame ∉ t.frames)
    (samples : Samples) : (t.add frame samples).entries = t.entries ++ [(frame, samples)] := by
  simp [add, addEntries, slot?_eq_none_iff.2 h]

/-- An addition to a frame of the table changes the one entry of that frame. -/
theorem entries_add_of_mem {t : FrameTable} {frame : String} (h : frame ∈ t.frames)
    (samples : Samples) :
    ∃ before after, t.entries = before ++ (frame, t.get frame) :: after ∧
      (t.add frame samples).entries =
        before ++ (frame, (t.get frame).addSat samples) :: after := by
  obtain ⟨held, hheld⟩ := mem_frames_iff.1 h
  obtain ⟨i, hi⟩ := List.mem_iff_getElem?.1 hheld
  obtain ⟨hlt, he⟩ := List.getElem?_eq_some_iff.1 hi
  have hsplit : t.entries = t.entries.take i ++ (frame, held) :: t.entries.drop (i + 1) := by
    rw [← he, List.cons_getElem_drop_succ, List.take_append_drop]
  refine ⟨t.entries.take i, t.entries.drop (i + 1), ?_, ?_⟩
  · rwa [get_of_mem hheld]
  · have hslot : t.slot? frame = some i := slot?_eq_some_iff.2 ⟨held, hi⟩
    simp only [add, addEntries, hslot]
    rw [get_of_mem hheld, List.modify_eq_take_cons_drop hlt, he]

theorem frames_add (t : FrameTable) (frame : String) (samples : Samples) :
    (t.add frame samples).frames =
      if frame ∈ t.frames then t.frames else t.frames ++ [frame] := by
  split_ifs with h
  · obtain ⟨before, after, h1, h2⟩ := entries_add_of_mem h samples
    simp [frames, h1, h2]
  · simp [frames, entries_add_of_not_mem h]

theorem zero_addSat (samples : Samples) : Samples.zero.addSat samples = samples :=
  Samples.ext (by have := samples.lt; rw [Samples.val_addSat, Samples.val_zero]; omega)

theorem mem_entries_add {t : FrameTable} {frame other : String} {held samples : Samples}
    (hne : other ≠ frame) (h : (other, held) ∈ t.entries) :
    (other, held) ∈ (t.add frame samples).entries := by
  by_cases hf : frame ∈ t.frames
  · obtain ⟨before, after, h1, h2⟩ := entries_add_of_mem hf samples
    rw [h1] at h
    rw [h2]
    simpa [hne] using h
  · rw [entries_add_of_not_mem hf]
    exact List.mem_append_left _ h

/-- An addition changes what its frame holds, and nothing else. -/
theorem get_add (t : FrameTable) (frame other : String) (samples : Samples) :
    (t.add frame samples).get other =
      if other = frame then (t.get frame).addSat samples else t.get other := by
  split_ifs with h
  · subst h
    by_cases hf : other ∈ t.frames
    · obtain ⟨before, after, -, h2⟩ := entries_add_of_mem hf samples
      exact get_of_mem (by rw [h2]; exact List.mem_append_right _ List.mem_cons_self)
    · rw [get_of_not_mem hf, zero_addSat]
      exact get_of_mem (by rw [entries_add_of_not_mem hf]; exact List.mem_concat_self)
  · by_cases ho : other ∈ t.frames
    · obtain ⟨held, hheld⟩ := mem_frames_iff.1 ho
      rw [get_of_mem hheld, get_of_mem (mem_entries_add h hheld)]
    · have hno : other ∉ (t.add frame samples).frames := by
        rw [frames_add]
        split_ifs
        · exact ho
        · simp [ho, h]
      rw [get_of_not_mem ho, get_of_not_mem hno]

/-! ## Sums -/

/-- The exact sum of the entries. -/
def sum (t : FrameTable) : ℕ := (t.entries.map fun e => e.2.val).sum

theorem foldl_addSat (entries : List (String × Samples)) (start : Samples) :
    (entries.foldl (fun sum e => sum.addSat e.2) start).val =
      min (start.val + (entries.map fun e => e.2.val).sum) (Samples.bound - 1) := by
  induction entries generalizing start with
  | nil => have := start.lt; simp; omega
  | cons e entries ih =>
    rw [List.foldl_cons, ih, Samples.val_addSat, List.map_cons, List.sum_cons]
    omega

/-- The total of a table is the exact sum, cut off at the largest count. -/
theorem val_total (t : FrameTable) : t.total.val = min t.sum (Samples.bound - 1) := by
  rw [total, foldl_addSat, Samples.val_zero, Nat.zero_add, sum]

theorem val_get_le_sum (t : FrameTable) (frame : String) : (t.get frame).val ≤ t.sum := by
  by_cases h : frame ∈ t.frames
  · obtain ⟨held, hheld⟩ := mem_frames_iff.1 h
    rw [get_of_mem hheld]
    exact List.le_sum_of_mem (List.mem_map.2 ⟨_, hheld, rfl⟩)
  · rw [get_of_not_mem h]
    exact Nat.zero_le _

/-- An addition that is not cut off adds to the sum what it adds to its frame. -/
theorem sum_add {t : FrameTable} {frame : String} {samples : Samples}
    (h : (t.get frame).val + samples.val < Samples.bound) :
    (t.add frame samples).sum = t.sum + samples.val := by
  by_cases hf : frame ∈ t.frames
  · obtain ⟨before, after, h1, h2⟩ := entries_add_of_mem hf samples
    simp only [sum, h1, h2, List.map_append, List.map_cons, List.sum_append, List.sum_cons,
      Samples.val_addSat]
    omega
  · simp [sum, entries_add_of_not_mem hf]

/-! ## Tables built by additions -/

/-- The table after some additions to the empty one. -/
def ofAdditions (additions : List (String × Samples)) : FrameTable :=
  additions.foldl (fun t e => t.add e.1 e.2) empty

/-- What some additions add to a frame, without a limit. -/
def added (additions : List (String × Samples)) (frame : String) : ℕ :=
  ((additions.filter fun e => e.1 = frame).map fun e => e.2.val).sum

theorem ofAdditions_append_singleton (additions : List (String × Samples))
    (e : String × Samples) :
    ofAdditions (additions ++ [e]) = (ofAdditions additions).add e.1 e.2 := by
  rw [ofAdditions, List.foldl_append]
  rfl

theorem added_append_singleton (additions : List (String × Samples)) (e : String × Samples)
    (frame : String) :
    added (additions ++ [e]) frame =
      added additions frame + if frame = e.1 then e.2.val else 0 := by
  by_cases h : e.1 = frame <;> simp [added, h, eq_comm (a := frame)]

theorem eraseDups_append_singleton (frames : List String) (frame : String) :
    (frames ++ [frame]).eraseDups =
      if frame ∈ frames then frames.eraseDups else frames.eraseDups ++ [frame] := by
  rw [List.eraseDups_append]
  split_ifs with h <;> simp [List.removeAll, h, List.eraseDups_cons]

/-- Of two lists of frames, the second adds the frames that are not in the first. -/
theorem eraseDups_append (frames more : List String) :
    (frames ++ more).eraseDups =
      frames.eraseDups ++ more.eraseDups.filter fun frame => frame ∉ frames := by
  induction more using List.reverseRecOn with
  | nil => simp
  | append_singleton more frame ih =>
    rw [← List.append_assoc, eraseDups_append_singleton, eraseDups_append_singleton, ih]
    by_cases hold : frame ∈ frames <;> by_cases hnew : frame ∈ more <;> simp [hold, hnew]

/-- The frames are listed in the order of their first additions. -/
theorem frames_ofAdditions (additions : List (String × Samples)) :
    (ofAdditions additions).frames = (additions.map Prod.fst).eraseDups := by
  induction additions using List.reverseRecOn with
  | nil => rfl
  | append_singleton additions e ih =>
    rw [ofAdditions_append_singleton, frames_add, ih, List.map_append, List.map_singleton,
      eraseDups_append_singleton]
    simp only [List.mem_eraseDups]

/-- A frame holds the exact sum of what was added to it, cut off at the largest count. -/
theorem val_get_ofAdditions (additions : List (String × Samples)) (frame : String) :
    ((ofAdditions additions).get frame).val =
      min (added additions frame) (Samples.bound - 1) := by
  induction additions using List.reverseRecOn with
  | nil => rfl
  | append_singleton additions e ih =>
    rw [ofAdditions_append_singleton, get_add, added_append_singleton]
    split_ifs with h
    · subst h
      rw [Samples.val_addSat, ih]
      omega
    · exact ih

/-- Where everything added fits into a count together, the entries sum up to it. -/
theorem sum_ofAdditions {additions : List (String × Samples)}
    (h : (additions.map fun e => e.2.val).sum < Samples.bound) :
    (ofAdditions additions).sum = (additions.map fun e => e.2.val).sum := by
  induction additions using List.reverseRecOn with
  | nil => rfl
  | append_singleton additions e ih =>
    rw [List.map_append, List.sum_append, List.map_singleton, List.sum_singleton] at h ⊢
    have ih := ih (by omega)
    have hle := val_get_le_sum (ofAdditions additions) e.1
    rw [ofAdditions_append_singleton, sum_add (by omega), ih]

/-! ## Ranking -/

theorem perm_ranked (t : FrameTable) : t.ranked.Perm t.entries := List.mergeSort_perm _ _

/-- The ranking goes by falling counts, and entries with equal counts stay in the order of the
table: whatever relation its entries have to the later ones is kept among them. -/
theorem pairwise_ranked (t : FrameTable) {S : String × Samples → String × Samples → Prop}
    (h : t.entries.Pairwise S) :
    t.ranked.Pairwise fun a b => b.2.val < a.2.val ∨ b.2.val = a.2.val ∧ S a b := by
  -- The sort is stable in that it sorts by count and then by the place in the table.
  let le (a b : String × Samples) : Bool := b.2.val ≤ a.2.val
  have htrans (a b c : String × Samples) (hab : le a b) (hbc : le b c) : le a c := by
    simp only [le, decide_eq_true_eq] at hab hbc ⊢
    omega
  have htotal (a b : String × Samples) : (le a b || le b a) = true := by
    simp only [le, Bool.or_eq_true, decide_eq_true_eq]
    omega
  have hsorted := List.pairwise_mergeSort (List.zipIdxLE_trans htrans)
    (List.zipIdxLE_total htotal) t.entries.zipIdx
  have hnodup : (t.entries.zipIdx.mergeSort (List.zipIdxLE le)).Pairwise fun a b => a.2 ≠ b.2 := by
    rw [← List.pairwise_map (f := Prod.snd) (R := (· ≠ ·))]
    exact ((List.mergeSort_perm _ _).map Prod.snd).nodup_iff.2 (by simp [List.nodup_range'])
  have hranked : t.ranked = (t.entries.zipIdx.mergeSort (List.zipIdxLE le)).map Prod.fst :=
    List.mergeSort_zipIdx.symm
  rw [hranked, List.pairwise_map]
  apply (hsorted.and hnodup).imp_of_mem
  rintro a b ha hb ⟨hle, hne⟩
  rw [List.mem_mergeSort, List.mem_zipIdx_iff_getElem?] at ha hb
  simp only [List.zipIdxLE, le, decide_eq_true_eq] at hle
  split_ifs at hle with h1 h2
  · obtain ⟨hi, hia⟩ := List.getElem?_eq_some_iff.1 ha
    obtain ⟨hj, hjb⟩ := List.getElem?_eq_some_iff.1 hb
    have hlt : a.2 < b.2 := by
      have : a.2 ≤ b.2 := by simpa using hle
      omega
    refine .inr ⟨by omega, ?_⟩
    rw [← hia, ← hjb]
    exact List.pairwise_iff_getElem.1 h _ _ hi hj hlt
  · exact .inl (by omega)

theorem pairwise_ranked_le (t : FrameTable) : t.ranked.Pairwise fun a b => b.2.val ≤ a.2.val := by
  have h : t.entries.Pairwise fun _ _ => True := List.pairwise_of_forall fun _ _ => trivial
  apply (t.pairwise_ranked h).imp
  intro a b hab
  omega

/-- What is not among the first `n` of a ranking comes behind each of them. -/
theorem ranked_behind_top {t : FrameTable} {S : String × Samples → String × Samples → Prop}
    (h : t.ranked.Pairwise S) {n : ℕ} {listed other : String × Samples} (hlisted : listed ∈ t.top n)
    (hother : other ∈ t.entries) (hno : other ∉ t.top n) : S listed other := by
  have hranked : other ∈ t.ranked.take n ++ t.ranked.drop n := by
    rw [List.take_append_drop]
    exact t.perm_ranked.mem_iff.2 hother
  rw [← List.take_append_drop n t.ranked, List.pairwise_append] at h
  exact h.2.2 listed hlisted other ((List.mem_append.1 hranked).resolve_left hno)

/-- A frame with more samples than one of the first `n` is one of them itself. -/
theorem mem_top_of_lt {t : FrameTable} {n : ℕ} {frame : String} {least : String × Samples}
    (hleast : least ∈ t.top n) (hlt : least.2.val < (t.get frame).val) :
    (frame, t.get frame) ∈ t.top n := by
  have hframe : frame ∈ t.frames := by
    by_contra hno
    rw [get_of_not_mem hno, Samples.val_zero] at hlt
    exact Nat.not_lt_zero _ hlt
  obtain ⟨samples, hentry⟩ := mem_frames_iff.1 hframe
  rw [get_of_mem hentry] at hlt ⊢
  by_contra hno
  have hle : samples.val ≤ least.2.val :=
    ranked_behind_top t.pairwise_ranked_le hleast hentry hno
  exact absurd hlt (Nat.not_lt.2 hle)

/-! ## Tables that hold the same -/

/-- Tables that hold the same for the same frames have the same entries, in whatever order. -/
theorem perm_entries {t u : FrameTable} (hframes : t.frames.Perm u.frames)
    (hget : ∀ frame, t.get frame = u.get frame) : t.entries.Perm u.entries := by
  have ht : t.entries = t.frames.map fun frame => (frame, t.get frame) := eq_map_get fun _ => id
  have hu : u.entries = u.frames.map fun frame => (frame, u.get frame) := eq_map_get fun _ => id
  rw [ht, hu, funext hget]
  exact hframes.map _

/-- The counts of a ranking do not depend on the order in which the frames were first seen. -/
theorem map_snd_ranked_of_perm {t u : FrameTable} (h : t.entries.Perm u.entries) :
    t.ranked.map Prod.snd = u.ranked.map Prod.snd := by
  have hsorted (t : FrameTable) :
      (t.ranked.map Prod.snd).Pairwise fun a b => b.val ≤ a.val := by
    rw [List.pairwise_map]
    exact t.pairwise_ranked_le
  have hperm : t.ranked.Perm u.ranked := t.perm_ranked.trans (h.trans u.perm_ranked.symm)
  refine List.Perm.eq_of_pairwise (fun a b _ _ hab hba => ?_) (hsorted t) (hsorted u)
    (hperm.map Prod.snd)
  exact Samples.ext (Nat.le_antisymm hba hab)

theorem map_snd_top_of_perm {t u : FrameTable} (h : t.entries.Perm u.entries) (n : ℕ) :
    (t.top n).map Prod.snd = (u.top n).map Prod.snd := by
  rw [top, top, List.map_take, List.map_take, map_snd_ranked_of_perm h]

end FrameTable

end HotFrames

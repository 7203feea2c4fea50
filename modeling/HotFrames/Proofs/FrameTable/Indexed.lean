import HotFrames.Proofs.FrameTable.Additions

/-!
# Frame tables with an index

A table finds the slot of a frame by looking for it.  A table with an index looks the slot up in a
hash map instead (`FrameTable.Indexed`), and nothing in its type says that the map is right: a slot
may be named that is not there, and then the table is stuck.  From the empty table on an index names
the slots that a search finds (`FrameTable.Indexed.Represents`), which each addition keeps
(`Represents.add?`).  So additions to an indexed table never get stuck, and leave the entries that they
leave without an index (`FrameTable.accounts_for_additions`).
-/

namespace HotFrames

namespace FrameTable

/-! ## Slots -/

theorem slot?_eq_findIdx?_frames (t : FrameTable) (frame : String) :
    t.slot? frame = t.frames.findIdx? (· == frame) := by
  rw [slot?, frames, List.findIdx?_map]
  rfl

theorem slot?_eq_some_iff_frames {t : FrameTable} {frame : String} {slot : ℕ} :
    t.slot? frame = some slot ↔ t.frames[slot]? = some frame := by
  rw [slot?_eq_some_iff, frames, List.getElem?_map, Option.map_eq_some_iff]
  constructor
  · rintro ⟨samples, hentry⟩
    exact ⟨_, hentry, rfl⟩
  · rintro ⟨e, hentry, rfl⟩
    exact ⟨e.2, hentry⟩

theorem slot?_lt_size {t : FrameTable} {frame : String} {slot : ℕ}
    (h : t.slot? frame = some slot) : slot < t.entries.length := by
  obtain ⟨samples, hentry⟩ := slot?_eq_some_iff.1 h
  exact (List.getElem?_eq_some_iff.1 hentry).1

/-- A new frame takes the slot behind all others, and no frame changes its slot. -/
theorem slot?_add (t : FrameTable) (frame other : String) (samples : Samples) :
    (t.add frame samples).slot? other =
      if frame ∉ t.frames ∧ frame = other then some t.entries.length else t.slot? other := by
  rw [slot?_eq_findIdx?_frames, frames_add]
  by_cases hframe : frame ∈ t.frames
  · rw [if_pos hframe, if_neg fun h => h.1 hframe, slot?_eq_findIdx?_frames]
  · rw [if_neg hframe, List.findIdx?_append, ← slot?_eq_findIdx?_frames]
    by_cases hother : frame = other
    · subst hother
      rw [slot?_eq_none_iff.2 hframe, if_pos ⟨hframe, rfl⟩]
      simp [frames]
    · rw [if_neg fun h => hother h.2]
      simp [hother]

/-! ## Tables with an index -/

/-- The slots of a table, and where the slot of each frame is said to be. -/
structure Indexed where
  index : Std.HashMap String ℕ := ∅
  entries : List (String × Samples) := []

namespace Indexed

/-- Adds samples to a frame in the slot that the index names, or in a new slot behind the others.  There
is no result if the named slot does not exist. -/
def add? (u : Indexed) (frame : String) (samples : Samples) : Option Indexed :=
  match u.index[frame]? with
  | some slot =>
    if slot < u.entries.length then
      some { u with entries := u.entries.modify slot fun e => (e.1, e.2.addSat samples) }
    else none
  | none =>
    some
      { index := u.index.insert frame u.entries.length
        entries := u.entries ++ [(frame, samples)] }

/-- The samples of a frame, none if it is not in the index.  There is no result if the named slot does
not exist. -/
def get? (u : Indexed) (frame : String) : Option Samples :=
  match u.index[frame]? with
  | some slot => u.entries[slot]?.map Prod.snd
  | none => some .zero

/-- Additions one after the other. -/
def addAll? (u : Indexed) (additions : List (String × Samples)) : Option Indexed :=
  additions.foldlM (fun u e => u.add? e.1 e.2) u

/-- Whether an indexed table has the entries of a table and an index that names their slots. -/
structure Represents (u : Indexed) (t : FrameTable) : Prop where
  entries : u.entries = t.entries
  index : ∀ frame, u.index[frame]? = t.slot? frame

variable {u : Indexed} {t : FrameTable}

theorem represents_empty : ({} : Indexed).Represents empty where
  entries := rfl
  index _ := Std.HashMap.getElem?_empty

/-- The index does not name a slot that is not there. -/
theorem Represents.get?_eq (h : u.Represents t) (frame : String) :
    u.get? frame = some (t.get frame) := by
  rw [Indexed.get?, h.index, h.entries, FrameTable.get]
  cases hslot : t.slot? frame with
  | none => rfl
  | some slot =>
    obtain ⟨samples, hentry⟩ := slot?_eq_some_iff.1 hslot
    simp only [hentry, Option.map_some, Option.bind_some]

/-- An addition is not stuck, and it keeps the index right. -/
theorem Represents.add? (h : u.Represents t) (frame : String) (samples : Samples) :
    ∃ u', u.add? frame samples = some u' ∧ u'.Represents (t.add frame samples) := by
  rw [Indexed.add?, h.index, h.entries]
  cases hslot : t.slot? frame with
  | some slot =>
    have hframe : frame ∈ t.frames := by
      by_contra hno
      rw [slot?_eq_none_iff.2 hno] at hslot
      cases hslot
    refine ⟨_, if_pos (slot?_lt_size hslot), ?_, fun other => ?_⟩
    · simp only [FrameTable.add, addEntries, hslot]
    · rw [slot?_add, if_neg fun hnew => hnew.1 hframe]
      exact h.index other
  | none =>
    have hframe : frame ∉ t.frames := slot?_eq_none_iff.1 hslot
    refine ⟨_, rfl, (entries_add_of_not_mem hframe samples).symm, fun other => ?_⟩
    rw [slot?_add, Std.HashMap.getElem?_insert, h.index other]
    simp only [hframe, not_false_eq_true, true_and, beq_iff_eq]

theorem Represents.addAll? (h : u.Represents t) (additions : List (String × Samples)) :
    ∃ u', u.addAll? additions = some u' ∧
      u'.Represents (additions.foldl (fun t e => t.add e.1 e.2) t) := by
  induction additions generalizing u t with
  | nil => exact ⟨u, rfl, h⟩
  | cons e additions ih =>
    obtain ⟨next, hnext, hrepresents⟩ := h.add? e.1 e.2
    obtain ⟨u', hu', hall⟩ := ih hrepresents
    refine ⟨u', ?_, hall⟩
    rw [Indexed.addAll?, List.foldlM_cons, hnext]
    exact hu'

end Indexed

/-- **What a table holds of the additions to it**, whatever these add up to.  Each frame holds the exact
sum of what was added to it, cut off at the largest count, and the total is the exact sum of
everything added, cut off there.  The frames are those among the additions, once each and in the order
of their first additions.  With an index beside the slots the same additions always find the slots that
the index names, leave the same entries and the same answers, and the index names the slot of each
frame of the table and of no other. -/
theorem accounts_for_additions (additions : List (String × Samples)) :
    let t := ofAdditions additions
    (∀ frame, (t.get frame).val = min (added additions frame) Samples.max.val) ∧
    t.total.val = min (additions.map fun e => e.2.val).sum Samples.max.val ∧
    t.size = (additions.map Prod.fst).toFinset.card ∧
    (t.frames.Nodup ∧ (∀ frame, frame ∈ t.frames ↔ frame ∈ additions.map Prod.fst) ∧
      t.frames.Pairwise fun a b => firstAdded additions a < firstAdded additions b) ∧
    ∃ u : Indexed, Indexed.addAll? {} additions = some u ∧ u.entries = t.entries ∧
      (∀ frame, u.get? frame = some (t.get frame)) ∧
      ∀ (frame : String) (slot : ℕ), u.index[frame]? = some slot ↔ t.frames[slot]? = some frame := by
  intro t
  refine ⟨val_get_ofAdditions additions, val_total_ofAdditions additions, size_ofAdditions additions,
    ⟨t.nodup, fun frame => mem_frames_ofAdditions, pairwise_firstAdded additions⟩, ?_⟩
  obtain ⟨u, hu, hrepresents⟩ := Indexed.represents_empty.addAll? additions
  refine ⟨u, hu, hrepresents.entries, hrepresents.get?_eq, fun frame slot => ?_⟩
  rw [hrepresents.index]
  exact slot?_eq_some_iff_frames

/-- Counts that leave the range in one frame, which is cut off, and go on in another. -/
example :
    let t := ofAdditions [("b", .max), ("a", ⟨3, by decide⟩), ("b", .max), ("c", .zero)]
    t.entries = [("b", .max), ("a", ⟨3, by decide⟩), ("c", .zero)] ∧ t.total = .max := by
  decide +kernel

end FrameTable

end HotFrames

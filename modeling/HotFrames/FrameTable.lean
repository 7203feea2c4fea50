import HotFrames.Samples

/-!
# Frame tables

A frame table adds up samples per frame and remembers the order in which the frames were first
seen. Each frame has one slot. Sums that would leave the range of a count stop at the largest one.
-/

namespace HotFrames

/-- Samples per frame, in the order of first sight. -/
structure FrameTable where
  /-- The slots, in the order in which they were filled. -/
  entries : List (String × Samples)
  /-- No frame has two slots. -/
  nodup : (entries.map Prod.fst).Nodup
  deriving DecidableEq

namespace FrameTable

@[ext] theorem ext {s t : FrameTable} (h : s.entries = t.entries) : s = t := by
  cases s; cases t; cases h; rfl

/-- The table without frames. -/
def empty : FrameTable := ⟨[], List.nodup_nil⟩

instance : Inhabited FrameTable := ⟨empty⟩

/-- The frames in the order of first sight. -/
def frames (t : FrameTable) : List String := t.entries.map Prod.fst

/-- The slot of a frame. -/
def slot? (t : FrameTable) (frame : String) : Option Nat :=
  t.entries.findIdx? fun e => e.1 == frame

/-- The samples of a frame, none if it was never seen. -/
def get (t : FrameTable) (frame : String) : Samples :=
  match (t.slot? frame).bind (t.entries[·]?) with
  | some e => e.2
  | none => .zero

/-- The number of frames. -/
def size (t : FrameTable) : Nat := t.entries.length

/-- Whether no frame was seen. -/
def isEmpty (t : FrameTable) : Bool := t.entries.isEmpty

/-- The sum of all samples. -/
def total (t : FrameTable) : Samples := t.entries.foldl (fun sum e => sum.addSat e.2) .zero

theorem slot?_eq_none_iff {t : FrameTable} {frame : String} :
    t.slot? frame = none ↔ frame ∉ t.frames := by
  simp only [slot?, frames, List.findIdx?_eq_none_iff, List.mem_map, not_exists, not_and]
  exact ⟨fun h e he hf => by simpa [hf] using h e he, fun h e he => by
    simpa using fun hf => h e he hf⟩

/-- A frame's slot holds that frame. -/
theorem slot?_eq_some_iff {t : FrameTable} {frame : String} {i : Nat} :
    t.slot? frame = some i ↔ ∃ samples, t.entries[i]? = some (frame, samples) := by
  rw [slot?, List.findIdx?_eq_some_iff_getElem]
  constructor
  · rintro ⟨h, hf, -⟩
    exact ⟨t.entries[i].2, by rw [List.getElem?_eq_getElem h, ← eq_of_beq hf]⟩
  · rintro ⟨samples, h⟩
    obtain ⟨hi, he⟩ := List.getElem?_eq_some_iff.1 h
    refine ⟨hi, by simp [he], fun j hj hf => ?_⟩
    have hj' : j < (t.entries.map Prod.fst).length := by simp; omega
    have hi' : i < (t.entries.map Prod.fst).length := by simpa
    have hfst : (t.entries.map Prod.fst).get ⟨j, hj'⟩ = (t.entries.map Prod.fst).get ⟨i, hi'⟩ := by
      simp [he, eq_of_beq hf]
    have := (List.getElem_inj t.nodup).1 hfst
    omega

/-- The entries after samples were added to a frame: in its slot, or in a new one at the end. -/
def addEntries (t : FrameTable) (frame : String) (samples : Samples) : List (String × Samples) :=
  match t.slot? frame with
  | some i => t.entries.modify i fun e => (e.1, e.2.addSat samples)
  | none => t.entries ++ [(frame, samples)]

theorem nodup_addEntries (t : FrameTable) (frame : String) (samples : Samples) :
    ((t.addEntries frame samples).map Prod.fst).Nodup := by
  unfold addEntries
  split
  · next i _ =>
    have : (t.entries.modify i fun e => (e.1, e.2.addSat samples)).map Prod.fst =
        t.entries.map Prod.fst := by
      refine List.ext_getElem? fun j => ?_
      simp only [List.getElem?_map, List.getElem?_modify]
      cases t.entries[j]? with
      | none => rfl
      | some e => simp only [Option.map_some]; split <;> rfl
    rw [this]
    exact t.nodup
  · next h =>
    have hno : frame ∉ t.entries.map Prod.fst := slot?_eq_none_iff.1 h
    rw [List.map_append, List.nodup_append]
    refine ⟨t.nodup, by simp, fun a ha b hb hab => hno ?_⟩
    have hframe : b = frame := by simpa using hb
    rwa [← hframe, ← hab]

/-- Adds samples to a frame. -/
def add (t : FrameTable) (frame : String) (samples : Samples) : FrameTable :=
  ⟨t.addEntries frame samples, t.nodup_addEntries frame samples⟩

/-- The entries from the largest count to the smallest; equal counts stay in the order of first
sight. -/
def ranked (t : FrameTable) : List (String × Samples) :=
  t.entries.mergeSort fun a b => b.2.val ≤ a.2.val

/-- The first `n` of the ranking. -/
def top (t : FrameTable) (n : Nat) : List (String × Samples) := t.ranked.take n

@[simp] theorem entries_empty : empty.entries = [] := rfl

@[simp] theorem get_empty (frame : String) : empty.get frame = .zero := rfl

@[simp] theorem size_empty : empty.size = 0 := rfl

@[simp] theorem total_empty : empty.total = .zero := rfl

end FrameTable

end HotFrames

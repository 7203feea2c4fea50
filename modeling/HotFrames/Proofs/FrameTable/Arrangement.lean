import HotFrames.Proofs.FrameTable.Additions

/-!
# The first frames of a table

By its additions a table has one arrangement: larger counts come before smaller ones, and of equal
counts the one whose frame was added first (`FrameTable.Arranges`, `FrameTable.Arranges.eq`).  The
ranking is this arrangement, since it sorts by counts and leaves equal ones in the order of the table
(`FrameTable.arranges_ranked`).  So the first `n` of it are determined by the additions, wherever a
run of equal counts is cut (`FrameTable.top_arranged`).
-/

namespace HotFrames

namespace FrameTable

variable {additions : List (String × Samples)} {a b : String × Samples}

/-- An entry comes before another if its count is larger, or as large and its frame was added first. -/
def ComesBefore (additions : List (String × Samples)) (a b : String × Samples) : Prop :=
  b.2.val < a.2.val ∨
    b.2.val = a.2.val ∧ firstAdded additions a.1 < firstAdded additions b.1

theorem ComesBefore.asymm (h : ComesBefore additions a b) : ¬ ComesBefore additions b a := by
  unfold ComesBefore at h ⊢
  omega

/-- A list of all entries in which one stands before another just if it comes before it. -/
structure Arranges (additions entries : List (String × Samples)) : Prop where
  perm : entries.Perm (ofAdditions additions).entries
  before_iff : ∀ (i j : ℕ) (hi : i < entries.length) (hj : j < entries.length),
    ComesBefore additions entries[i] entries[j] ↔ i < j

theorem Arranges.pairwise {entries : List (String × Samples)} (h : Arranges additions entries) :
    entries.Pairwise (ComesBefore additions) :=
  List.pairwise_iff_getElem.2 fun i j hi hj => (h.before_iff i j hi hj).2

theorem arranges_of_pairwise {entries : List (String × Samples)}
    (hperm : entries.Perm (ofAdditions additions).entries)
    (h : entries.Pairwise (ComesBefore additions)) : Arranges additions entries where
  perm := hperm
  before_iff i j hi hj := by
    have hlt := List.pairwise_iff_getElem.1 h
    refine ⟨fun hbefore => ?_, hlt i j hi hj⟩
    rcases Nat.lt_trichotomy i j with hij | rfl | hji
    · exact hij
    · exact absurd hbefore hbefore.asymm
    · exact absurd hbefore (hlt j i hj hi hji).asymm

/-- There is only one arrangement. -/
theorem Arranges.eq {entries other : List (String × Samples)} (h : Arranges additions entries)
    (hother : Arranges additions other) : other = entries :=
  List.Perm.eq_of_pairwise (fun _ _ _ _ hab hba => absurd hba hab.asymm) hother.pairwise h.pairwise
    (hother.perm.trans h.perm.symm)

theorem pairwise_ranked_ofAdditions (additions : List (String × Samples)) :
    (ofAdditions additions).ranked.Pairwise (ComesBefore additions) := by
  have hadded := pairwise_firstAdded additions
  rw [frames, List.pairwise_map] at hadded
  exact pairwise_ranked _ hadded

theorem arranges_ranked (additions : List (String × Samples)) :
    Arranges additions (ofAdditions additions).ranked :=
  arranges_of_pairwise (perm_ranked _) (pairwise_ranked_ofAdditions additions)

section Top

variable (t : FrameTable) (n : ℕ)

theorem length_ranked : t.ranked.length = t.size := t.perm_ranked.length_eq

theorem length_top : (t.top n).length = min n t.size := by
  rw [top, List.length_take, length_ranked]

theorem top_sublist_ranked : (t.top n).Sublist t.ranked := List.take_sublist n t.ranked

theorem nodup_frames_top : ((t.top n).map Prod.fst).Nodup := by
  have hranked : (t.ranked.map Prod.fst).Nodup := (t.perm_ranked.map Prod.fst).nodup_iff.2 t.nodup
  exact hranked.sublist ((t.top_sublist_ranked n).map Prod.fst)

variable {t n}

theorem mem_entries_of_mem_top {e : String × Samples} (h : e ∈ t.top n) : e ∈ t.entries :=
  t.perm_ranked.mem_iff.1 ((t.top_sublist_ranked n).subset h)

end Top

/-- **The first `n` frames of a table**, whatever was added to it and whatever `n` is.  There are `n` of
them or as many as the table has, no frame twice and each with what the table holds for it.  They are
the beginning of the one arrangement of all entries.  So a frame that is not listed has no more samples
than one that is, and if it has as many it was added later. -/
theorem top_arranged (additions : List (String × Samples)) (n : ℕ) :
    let t := ofAdditions additions
    (t.top n).length = min n t.size ∧
    (((t.top n).map Prod.fst).Nodup ∧ ∀ e ∈ t.top n, e.1 ∈ t.frames ∧ e.2 = t.get e.1) ∧
    (∃ arranged, Arranges additions arranged ∧
      (∀ other, Arranges additions other → other = arranged) ∧
      t.top n = arranged.take (min n t.size)) ∧
    ∀ frame ∈ t.frames, frame ∉ (t.top n).map Prod.fst → ∀ e ∈ t.top n,
      (t.get frame).val ≤ e.2.val ∧
      ((t.get frame).val = e.2.val →
        firstAdded additions e.1 < firstAdded additions frame) := by
  intro t
  refine ⟨t.length_top n, ⟨t.nodup_frames_top n, fun e he => ?_⟩, ?_, fun frame hframe hno e he => ?_⟩
  · have hentry := mem_entries_of_mem_top he
    exact ⟨mem_frames_iff.2 ⟨e.2, hentry⟩, (get_of_mem hentry).symm⟩
  · refine ⟨t.ranked, arranges_ranked additions, fun _ => (arranges_ranked additions).eq, ?_⟩
    rw [← t.length_ranked, ← List.take_eq_take_min]
    rfl
  · obtain ⟨samples, hentry⟩ := mem_frames_iff.1 hframe
    have hout : (frame, samples) ∉ t.top n := fun hmem => hno (List.mem_map_of_mem hmem)
    have hbefore : ComesBefore additions e (frame, samples) :=
      ranked_behind_top (pairwise_ranked_ofAdditions additions) he hentry hout
    simp only [ComesBefore] at hbefore
    rw [get_of_mem hentry]
    omega

end FrameTable

end HotFrames

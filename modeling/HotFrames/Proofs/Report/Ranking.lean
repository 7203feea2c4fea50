import HotFrames.Proofs.Profile.Tables
import HotFrames.Report

/-!
# The report on some stacks

The report is described from the stacks alone (`Report.ofStacks`): a scope names the frames that
it counts some stack for, ranked by their samples and, where these are equal, by the first stack
that is counted for them (`Profile.Scope.ranking`).  The tables of a profile list the same frames in
the same order (`Profile.Tallies.ranked_table`), since both orders sort the frames by one relation
in which no two of them stand level.
-/

namespace HotFrames

namespace Profile

namespace Scope

variable {scope : Scope} {ss : List Stack} {a b : String}

/-- The place of the first stack that a scope counts for a frame. -/
def firstSight (scope : Scope) (ss : List Stack) (frame : String) : ℕ :=
  ss.findIdx fun s => scope.frame? s = some frame

/-- A frame ranks before another if it has more samples, or as many and was seen before. -/
def RanksBefore (scope : Scope) (ss : List Stack) (a b : String) : Prop :=
  scope.samples ss b < scope.samples ss a ∨
    scope.samples ss b = scope.samples ss a ∧ scope.firstSight ss a ≤ scope.firstSight ss b

instance : DecidableRel (scope.RanksBefore ss) := fun _ _ => instDecidableOr

instance : IsTrans String (scope.RanksBefore ss) where
  trans a b c hab hbc := by
    unfold RanksBefore at hab hbc ⊢
    omega

instance : Std.Total (scope.RanksBefore ss) where
  total a b := by
    unfold RanksBefore
    omega

/-- The frames that a scope counts some stack for, each once and in the order of their rank. -/
def ranking (scope : Scope) (ss : List Stack) : List String :=
  (ss.filterMap scope.frame?).eraseDups.insertionSort (scope.RanksBefore ss)

theorem pairwise_ranking (scope : Scope) (ss : List Stack) :
    (scope.ranking ss).Pairwise (scope.RanksBefore ss) :=
  List.pairwise_insertionSort _ _

theorem perm_ranking (scope : Scope) (ss : List Stack) :
    (scope.ranking ss).Perm (ss.filterMap scope.frame?).eraseDups :=
  List.perm_insertionSort _ _

/-! ## First sight -/

theorem firstSight_lt (h : a ∈ ss.filterMap scope.frame?) : scope.firstSight ss a < ss.length := by
  obtain ⟨s, hs, ha⟩ := List.mem_filterMap.1 h
  exact List.findIdx_lt_length_of_exists ⟨s, hs, decide_eq_true ha⟩

/-- No two frames are seen first in one stack. -/
theorem firstSight_inj (ha : a ∈ ss.filterMap scope.frame?) (hb : b ∈ ss.filterMap scope.frame?)
    (h : scope.firstSight ss a = scope.firstSight ss b) : a = b := by
  have hframe {c : String} (hc : c ∈ ss.filterMap scope.frame?) :
      (ss[scope.firstSight ss c]?).bind scope.frame? = some c := by
    have hlt := firstSight_lt hc
    have hget := List.findIdx_getElem (p := fun s => scope.frame? s = some c) (w := hlt)
    rw [List.getElem?_eq_getElem hlt, Option.bind_some]
    exact of_decide_eq_true hget
  have := hframe ha
  rw [h, hframe hb] at this
  exact (Option.some.inj this).symm

theorem firstSight_append_of_mem (h : a ∈ ss.filterMap scope.frame?) (more : List Stack) :
    scope.firstSight (ss ++ more) a = scope.firstSight ss a := by
  rw [firstSight, List.findIdx_append]
  exact if_pos (firstSight_lt h)

theorem length_le_firstSight (h : a ∉ ss.filterMap scope.frame?) (more : List Stack) :
    ss.length ≤ scope.firstSight (ss ++ more) a := by
  have hno : ¬ scope.firstSight ss a < ss.length := by
    intro hlt
    have hget := List.findIdx_getElem (p := fun s => scope.frame? s = some a) (w := hlt)
    exact h (List.mem_filterMap.2 ⟨_, List.getElem_mem hlt, of_decide_eq_true hget⟩)
  rw [firstSight, List.findIdx_append]
  split_ifs
  · contradiction
  · exact Nat.le_add_left _ _

/-- The frames of a table stand in the order of first sight. -/
theorem pairwise_firstSight (scope : Scope) (ss : List Stack) :
    (ss.filterMap scope.frame?).eraseDups.Pairwise fun a b =>
      scope.firstSight ss a < scope.firstSight ss b := by
  induction ss using List.reverseRecOn with
  | nil => exact List.Pairwise.nil
  | append_singleton ss s ih =>
    -- The frames seen so far keep their places, and a new one comes behind all of them.
    have hkeep : (ss.filterMap scope.frame?).eraseDups.Pairwise fun a b =>
        scope.firstSight (ss ++ [s]) a < scope.firstSight (ss ++ [s]) b := by
      apply ih.imp_of_mem
      intro a b ha hb hab
      rw [List.mem_eraseDups] at ha hb
      rwa [firstSight_append_of_mem ha, firstSight_append_of_mem hb]
    rw [List.filterMap_append]
    cases hf : scope.frame? s with
    | none => simpa [hf] using hkeep
    | some frame =>
      have hsingle : [s].filterMap scope.frame? = [frame] := by simp [hf]
      rw [hsingle, FrameTable.eraseDups_append_singleton]
      split_ifs with hmem
      · exact hkeep
      · rw [List.pairwise_append]
        refine ⟨hkeep, List.pairwise_singleton _ _, fun a ha b hb => ?_⟩
        rw [List.mem_eraseDups] at ha
        rw [List.mem_singleton.1 hb, firstSight_append_of_mem ha]
        exact Nat.lt_of_lt_of_le (firstSight_lt ha) (length_le_firstSight hmem [s])

end Scope

namespace Tallies

variable {p : Profile} {ss : List Stack}

/-- A table of a profile ranks its frames as the stacks do. -/
theorem ranked_table (h : Tallies p ss) (scope : Scope) :
    (p.table scope).ranked.map Prod.fst = scope.ranking ss := by
  have hframes : (p.table scope).frames = (ss.filterMap scope.frame?).eraseDups := h.frames scope
  have hperm : ((p.table scope).ranked.map Prod.fst).Perm
      (ss.filterMap scope.frame?).eraseDups :=
    hframes ▸ (p.table scope).perm_ranked.map Prod.fst
  have hsamples {e : String × Samples} (he : e ∈ (p.table scope).ranked) :
      e.2.val = scope.samples ss e.1 := by
    have hget := FrameTable.get_of_mem ((p.table scope).perm_ranked.mem_iff.1 he)
    rw [← hget, h.val_get]
  have hsight : (p.table scope).entries.Pairwise fun a b =>
      scope.firstSight ss a.1 < scope.firstSight ss b.1 := by
    have := scope.pairwise_firstSight ss
    rwa [← hframes, FrameTable.frames, List.pairwise_map] at this
  have hpairwise : ((p.table scope).ranked.map Prod.fst).Pairwise (scope.RanksBefore ss) := by
    rw [List.pairwise_map]
    apply ((p.table scope).pairwise_ranked hsight).imp_of_mem
    intro a b ha hb hab
    rw [hsamples ha, hsamples hb] at hab
    unfold Scope.RanksBefore
    omega
  -- No two frames stand level, so there is only one way to rank them.
  refine List.Perm.eq_of_pairwise (fun a b ha hb hab hba => ?_) hpairwise
    (scope.pairwise_ranking ss) (hperm.trans (scope.perm_ranking ss).symm)
  rw [hperm.mem_iff, List.mem_eraseDups] at ha
  rw [(scope.perm_ranking ss).mem_iff, List.mem_eraseDups] at hb
  unfold Scope.RanksBefore at hab hba
  exact Scope.firstSight_inj ha hb (by omega)

end Tallies

/-- What a scope counts for a frame, as a count, which it is if all samples together are. -/
def Scope.count (scope : Scope) {ss : List Stack} (hfits : Stack.sum ss < Samples.bound)
    (frame : String) : Samples :=
  ⟨scope.samples ss frame, Nat.lt_of_le_of_lt (scope.samples_le_sum ss frame) hfits⟩

theorem Tallies.get_table {p : Profile} {ss : List Stack} (h : Tallies p ss)
    (hfits : Stack.sum ss < Samples.bound) (scope : Scope) (frame : String) :
    (p.table scope).get frame = scope.count hfits frame :=
  Samples.ext (h.val_get scope frame)

end Profile

namespace Report

open Profile (Scope)

/-- The section on a scope: the first `top` frames of the ranking, with their samples. -/
def sectionOfStacks (title : String) (scope : Scope) {ss : List Stack}
    (hfits : Stack.sum ss < Samples.bound) (top : ℕ) : Section where
  title
  entries := ((scope.ranking ss).take top).map fun frame =>
    { frame
      samples := scope.count hfits frame
      percentage := percentage (scope.count hfits frame) ⟨Stack.sum ss, hfits⟩ }

/-- The report on some stacks. -/
def ofStacks {ss : List Stack} (hfits : Stack.sum ss < Samples.bound) (source : String) (top : ℕ)
    (generatedAt : String) : Report where
  version := currentVersion
  source
  total := ⟨Stack.sum ss, hfits⟩
  sections :=
    [sectionOfStacks "Top leaf frames" .leaf hfits top,
      sectionOfStacks "Top service frames" (.within .service) hfits top,
      sectionOfStacks "Top core frames" (.within .core) hfits top,
      sectionOfStacks "Top tink frames" (.within .tink) hfits top]
  generatedAt

theorem section_eq {p : Profile} {ss : List Stack} (h : p.Tallies ss)
    (hfits : Stack.sum ss < Samples.bound) (scope : Scope) (top : ℕ) :
    { title := title scope, entries := ranking (p.table scope) p.total top } =
      sectionOfStacks (title scope) scope hfits top := by
  have htotal : p.total = ⟨Stack.sum ss, hfits⟩ := Samples.ext h.total
  have hranked := FrameTable.eq_map_get fun e => (p.table scope).perm_ranked.mem_iff (a := e).1
  rw [sectionOfStacks, ranking, FrameTable.top, hranked, h.ranked_table, ← List.map_take,
    List.map_map, htotal]
  simp only [Function.comp_def, h.get_table hfits]

/-- **The report on a profile is the report on its stacks.** -/
theorem ofProfile_eq_ofStacks {p : Profile} {ss : List Stack} (h : p.Tallies ss)
    (hfits : Stack.sum ss < Samples.bound) (source : String) (top : ℕ) (generatedAt : String) :
    ofProfile p source top generatedAt = ofStacks hfits source top generatedAt := by
  have htotal : p.total = ⟨Stack.sum ss, hfits⟩ := Samples.ext h.total
  have hsections : (Scope.all.map fun scope =>
      ({ title := title scope, entries := ranking (p.table scope) p.total top } : Section)) =
      [sectionOfStacks "Top leaf frames" .leaf hfits top,
        sectionOfStacks "Top service frames" (.within .service) hfits top,
        sectionOfStacks "Top core frames" (.within .core) hfits top,
        sectionOfStacks "Top tink frames" (.within .tink) hfits top] := by
    simp only [Scope.all, Namespace.all, List.map_cons, List.map_nil, section_eq h hfits]
    rfl
  rw [ofProfile, hsections, htotal, ofStacks]

end Report

end HotFrames

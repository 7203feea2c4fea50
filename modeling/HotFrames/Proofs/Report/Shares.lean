import HotFrames.Proofs.FrameTable.Arrangement
import HotFrames.Proofs.Profile.Runs
import HotFrames.Proofs.Report.Percentages

/-!
# Percentages as numbers

A percentage is a rational number that is rounded three times (`Report.share`): the counts are, then
their quotient, then its product with one hundred.  Each rounding keeps the order of numbers and
changes neither one nor one hundred, so the percentages of a run lie between zero and one hundred and
never increase along a section (`Report.percentages_of_run`).  No entry has more samples than the
total there.  A profile that no run leads to may break that, but its percentages are finite too, so
that nothing in the JSON text of a report is written as `null`.
-/

namespace HotFrames

namespace Json

/-- Whether a value, or a value in it, is written as `null`. -/
inductive WritesNull : Json → Prop
  | null : WritesNull null
  | real {x : Binary64} (h : realText x = "null") : WritesNull (real x)
  | item {items : List Json} {item : Json} (hmem : item ∈ items) (h : item.WritesNull) :
      WritesNull (array items)
  | member {members : List (String × Json)} {name : String} {value : Json}
      (hmem : (name, value) ∈ members) (h : value.WritesNull) : WritesNull (object members)

@[simp] theorem not_writesNull_natural (n : ℕ) : ¬ (natural n).WritesNull := nofun

@[simp] theorem not_writesNull_string (s : String) : ¬ (string s).WritesNull := nofun

@[simp] theorem writesNull_real (x : Binary64) : (real x).WritesNull ↔ x.isFinite = false := by
  rw [← realText_eq_null_iff]
  exact ⟨fun | .real h => h, .real⟩

@[simp] theorem writesNull_array (items : List Json) :
    (array items).WritesNull ↔ ∃ item ∈ items, item.WritesNull :=
  ⟨fun | .item hmem h => ⟨_, hmem, h⟩, fun ⟨_, hmem, h⟩ => .item hmem h⟩

@[simp] theorem writesNull_object (members : List (String × Json)) :
    (object members).WritesNull ↔ ∃ member ∈ members, member.2.WritesNull :=
  ⟨fun | .member hmem h => ⟨_, hmem, h⟩, fun ⟨_, hmem, h⟩ => .member hmem h⟩

end Json

namespace Report

open Binary64

/-! ## Shares -/

/-- The share of a count in a total, in percent: the counts are rounded, then their quotient, then its
product with one hundred. -/
def share (samples total : Samples) : ℚ :=
  rounded (rounded (rounded samples.val / rounded total.val) * 100)

section Share

variable {samples more total : Samples}

theorem rounded_samples_pos (h : samples.val ≠ 0) : 0 < rounded samples.val :=
  (rounded_within (within_samples h) (by decide)).pos

/-- A share does not fall when the count grows. -/
theorem share_mono (h : samples.val ≤ more.val) : share samples total ≤ share more total := by
  have hcounts : rounded samples.val ≤ rounded more.val :=
    rounded_mono (Nat.cast_nonneg _) (Nat.cast_le.2 h)
  have hquotients := div_le_div_of_nonneg_right hcounts (rounded_nonneg (total.val : ℚ))
  have hpercent := mul_le_mul_of_nonneg_right
    (rounded_mono (div_nonneg (rounded_nonneg _) (rounded_nonneg _)) hquotients)
    (by norm_num : (0 : ℚ) ≤ 100)
  exact rounded_mono (mul_nonneg (rounded_nonneg _) (by norm_num)) hpercent

/-- The share of the total in itself is one hundred. -/
theorem share_self (htotal : total.val ≠ 0) : share total total = 100 := by
  have hone : rounded 1 = 1 := by simpa using rounded_natCast (n := 1) (by norm_num)
  have hhundred : rounded 100 = 100 := rounded_natCast (n := 100) (by norm_num)
  rw [share, div_self (rounded_samples_pos htotal).ne', hone, one_mul, hhundred]

theorem share_le (htotal : total.val ≠ 0) (h : samples.val ≤ total.val) :
    share samples total ≤ 100 := share_self htotal ▸ share_mono h

theorem share_eq_zero_iff (htotal : total.val ≠ 0) : share samples total = 0 ↔ samples.val = 0 := by
  constructor
  · intro hzero
    by_contra hsamples
    have hwithin := (percentage_eq_nearest hsamples htotal).2
    exact (rounded_within hwithin (by decide)).pos.ne' hzero
  · intro hsamples
    have hzero : rounded 0 = 0 := by simpa using rounded_natCast (n := 0) (by norm_num)
    rw [share, hsamples, Nat.cast_zero, hzero, zero_div, hzero, zero_mul, hzero]

/-- **A percentage is the share as a double.** -/
theorem toRat_percentage (htotal : total.val ≠ 0) :
    (percentage samples total).isFinite = true ∧
      (percentage samples total).toRat = share samples total := by
  by_cases hsamples : samples.val = 0
  · rw [percentage_of_samples_zero hsamples, (share_eq_zero_iff htotal).2 hsamples]
    exact ⟨rfl, toRat_zero⟩
  · obtain ⟨heq, hwithin⟩ := percentage_eq_nearest hsamples htotal
    rw [heq]
    exact toRat_nearest hwithin (by decide)

end Share

theorem isFinite_percentage (samples total : Samples) :
    (percentage samples total).isFinite = true := by
  obtain hzero | ⟨rank, hrank, -⟩ := percentage_cases samples total
  · rw [hzero]
    rfl
  · rw [hrank]
    rfl

/-! ## What is written -/

theorem Entry.writesNull_toJson_iff (e : Entry) :
    e.toJson.WritesNull ↔ e.percentage.isFinite = false := by
  simp [toJson]

theorem Section.writesNull_toJson_iff (s : Section) :
    s.toJson.WritesNull ↔ ∃ x ∈ s.percentages, x.isFinite = false := by
  simp [toJson, percentages, Entry.writesNull_toJson_iff]

/-- A report is written with a `null` just if a percentage is not finite. -/
theorem writesNull_toJson_iff (r : Report) :
    r.toJson.WritesNull ↔ ∃ x ∈ r.percentages, x.isFinite = false := by
  have hsections : r.toJson.WritesNull ↔
      ∃ s ∈ r.sections, ∃ x ∈ s.percentages, x.isFinite = false := by
    simp [toJson, Section.writesNull_toJson_iff]
  rw [hsections]
  simp only [percentages, List.mem_flatMap]
  exact ⟨fun ⟨s, hs, x, hx, h⟩ => ⟨x, ⟨s, hs, hx⟩, h⟩, fun ⟨x, ⟨s, hs, hx⟩, h⟩ => ⟨s, hs, x, hx, h⟩⟩

/-! ## The sections of a run -/

theorem samples_le_total (calls : List Profile.Call) {scope : Profile.Scope}
    {row : String × Samples} (h : row ∈ ((Profile.empty.run calls).table scope).entries) :
    row.2.val ≤ (Profile.empty.run calls).total.val := by
  have hsum := (Profile.tallies_run calls).sum_table_le scope
  have hget := ((Profile.empty.run calls).table scope).val_get_le_sum row.1
  rw [FrameTable.get_of_mem h] at hget
  exact hget.trans hsum

/-- The entries of a ranking stand in the order of their counts. -/
theorem pairwise_ranking (table : FrameTable) (total : Samples) (top : ℕ) :
    (ranking table total top).Pairwise fun e next => next.samples.val ≤ e.samples.val := by
  rw [ranking, List.pairwise_map]
  exact table.pairwise_ranked_le.sublist (table.top_sublist_ranked top)

theorem percentage_of_mem_ranking {table : FrameTable} {total : Samples} {top : ℕ} {e : Entry}
    (h : e ∈ ranking table total top) :
    (e.frame, e.samples) ∈ table.entries ∧ e.percentage = percentage e.samples total := by
  obtain ⟨row, hrow, rfl⟩ := List.mem_map.1 h
  exact ⟨FrameTable.mem_entries_of_mem_top hrow, rfl⟩

/-- **The percentages of a run** are the shares of the counts in the total, from zero, which only a
count of zero has, to one hundred, which the total has, and they never increase along a section.
Whatever a profile holds, all percentages of its report are finite, nothing in the JSON text is written
as `null`, and the text is read back. -/
theorem percentages_of_run :
    (∀ (calls : List Profile.Call) (source : String) (top : ℕ) (generatedAt : String),
      let p := Profile.empty.run calls
      0 < p.total.val → ∀ s ∈ (ofProfile p source top generatedAt).sections,
        (∀ e ∈ s.entries,
          (e.percentage.isFinite = true ∧ e.percentage.toRat = share e.samples p.total) ∧
          (0 ≤ e.percentage.toRat ∧ e.percentage.toRat ≤ 100) ∧
          (e.percentage.toRat = 0 ↔ e.samples.val = 0) ∧
          (e.samples = p.total → e.percentage.toRat = 100)) ∧
        s.entries.Pairwise fun e next => next.percentage.toRat ≤ e.percentage.toRat) ∧
    ∀ (p : Profile) (source : String) (top : ℕ) (generatedAt : String),
      let r := ofProfile p source top generatedAt
      (∀ x ∈ r.percentages, x.isFinite = true) ∧ ¬ r.toJson.WritesNull ∧
        ∃ r', ofJsonText (Utf8.encode r.jsonText.toList) = .ok r' ∧ r'.content = r.content := by
  constructor
  · intro calls source top generatedAt p hpos s hs
    have htotal : p.total.val ≠ 0 := hpos.ne'
    obtain ⟨scope, -, rfl⟩ := List.mem_map.1 hs
    have hvalue {e : Entry} (he : e ∈ ranking (p.table scope) p.total top) :
        e.percentage.isFinite = true ∧ e.percentage.toRat = share e.samples p.total := by
      rw [(percentage_of_mem_ranking he).2]
      exact toRat_percentage htotal
    refine ⟨fun e he => ⟨hvalue he, ?_, ?_, ?_⟩, ?_⟩
    · rw [(hvalue he).2]
      exact ⟨rounded_nonneg _,
        share_le htotal (samples_le_total calls (percentage_of_mem_ranking he).1)⟩
    · rw [(hvalue he).2]
      exact share_eq_zero_iff htotal
    · intro hall
      rw [(hvalue he).2, hall]
      exact share_self htotal
    · apply (pairwise_ranking _ _ _).imp_of_mem
      intro e next he hnext hle
      rw [(hvalue he).2, (hvalue hnext).2]
      exact share_mono hle
  · intro p source top generatedAt r
    have hfinite : ∀ x ∈ r.percentages, x.isFinite = true := by
      intro x hx
      obtain ⟨samples, rfl⟩ := exists_percentage hx
      exact isFinite_percentage samples p.total
    refine ⟨hfinite, fun hnull => ?_, ?_⟩
    · obtain ⟨x, hx, hx'⟩ := (writesNull_toJson_iff r).1 hnull
      rw [hfinite x hx] at hx'
      cases hx'
    · obtain ⟨r', hr', hcontent, -⟩ := exists_reread_ofProfile p source top generatedAt
      exact ⟨r', (ofJsonText_jsonText r).trans hr', hcontent⟩

/-- A frame without samples below the largest total, which a further line cannot add to. -/
theorem percentages_of_run_largest_total :
    let calls : List Profile.Call :=
      [.recordLine "a 0", .record { frames := [], count := .max }, .consume [.ok "b 1"]]
    let p := Profile.empty.run calls
    let s : Section := { title := title .leaf, entries := ranking p.leaf p.total 9 }
    (0 < p.total.val ∧ s ∈ (ofProfile p "" 9 "").sections) ∧
      s.entries.map (fun e => (e.frame, e.samples)) = [("", .max), ("a", .zero)] ∧
      s.entries.map (fun e => e.percentage.toRat) = [100, 0] := by
  intro calls p s
  have hpos : 0 < p.total.val := by decide +kernel
  have hs : s ∈ (ofProfile p "" 9 "").sections := List.mem_cons_self
  have hleaf : p.leaf.entries = [("a", .zero), ("", .max)] := by decide +kernel
  have hrows : s.entries.map (fun e => (e.frame, e.samples)) = [("", .max), ("a", .zero)] := by
    have hranked : p.leaf.ranked = [("", .max), ("a", .zero)] := by
      rw [FrameTable.ranked, hleaf]
      have hbound : ¬ Samples.bound - 1 = 0 := by decide
      simp [List.mergeSort, hbound]
    simp [s, ranking, FrameTable.top, hranked]
  refine ⟨⟨hpos, hs⟩, hrows, ?_⟩
  obtain ⟨hentries, -⟩ := percentages_of_run.1 calls "" 9 "" hpos s hs
  obtain ⟨first, rest, hsplit, hfirst, hrest⟩ := List.map_eq_cons_iff.1 hrows
  obtain ⟨last, rfl, hlast⟩ := List.map_eq_singleton_iff.1 hrest
  rw [hsplit] at hentries ⊢
  have htotal : first.samples = p.total := (Prod.mk.inj hfirst).2.trans (by decide +kernel)
  have hzero : last.samples.val = 0 := congrArg Samples.val (Prod.mk.inj hlast).2
  have hhundred := (hentries first (by simp)).2.2.2 htotal
  have hnone := (hentries last (by simp)).2.2.1.2 hzero
  rw [List.map_cons, List.map_singleton, hhundred, hnone]

end Report

end HotFrames

import HotFrames.Proofs.FrameTable
import HotFrames.Proofs.Json.Reread
import HotFrames.Proofs.Report.Saved

/-!
# Percentages read back

The percentages of a report on a profile are zero or of moderate size, whatever the counts are
(`Report.percentage_cases`), and so each of them is read back from the file of a saved report as a
double near it (`Report.load_save_percentages`), which need not be the same one.
-/

namespace HotFrames.Report

open Binary64 World

/-! ## The size of percentages -/

theorem within_samples {n : Samples} (h : n.val ≠ 0) : Within 128 (n.val : ℚ) :=
  within_natCast (Nat.pos_of_ne_zero h) n.lt.le

theorem within_hundred : Within 7 (100 : ℚ) := within_natCast (n := 100) (by decide) (by decide)

section Percentage

variable {samples total : Samples}

theorem percentage_of_total_zero (htotal : total.val = 0) : percentage samples total = zero :=
  if_pos htotal

theorem percentage_of_samples_zero (hsamples : samples.val = 0) :
    percentage samples total = zero := by
  by_cases htotal : total.val = 0
  · exact percentage_of_total_zero htotal
  · obtain ⟨b, hb, hval⟩ := nearest_eq (within_samples htotal) (by decide)
    obtain ⟨c, hc, -⟩ := nearest_eq within_hundred (by decide)
    have hne : b.val ≠ 0 := by
      rw [hval]
      exact ne_zero_of_within (rounded_within (within_samples htotal) (by decide))
    rw [percentage, if_neg htotal, ofNat_eq_nearest, ofNat_eq_nearest, ofNat_eq_nearest, hsamples,
      Nat.cast_zero, nearest_zero, Nat.cast_ofNat, hb, hc, zero_div_finite hne, zero_mul_finite]

/-- The counts, their quotient and its product with one hundred are rounded one after the other. -/
theorem percentage_eq_nearest (hsamples : samples.val ≠ 0) (htotal : total.val ≠ 0) :
    percentage samples total =
        nearest (rounded (rounded samples.val / rounded total.val) * 100) ∧
      Within 263 (rounded (rounded samples.val / rounded total.val) * 100) := by
  have hs := within_samples hsamples
  have ht := within_samples htotal
  have hquotient := (rounded_within hs (by decide)).div (rounded_within ht (by decide))
  have hhundred : rounded 100 = 100 := rounded_natCast (n := 100) (by norm_num)
  refine ⟨?_, (rounded_within hquotient (by decide)).mul within_hundred⟩
  rw [percentage, if_neg htotal, ofNat_eq_nearest, ofNat_eq_nearest, ofNat_eq_nearest,
    nearest_div hs (by decide) ht (by decide), Nat.cast_ofNat,
    nearest_mul hquotient (by decide) within_hundred (by decide), hhundred]

end Percentage

/-- **A percentage is zero or of moderate size.** -/
theorem percentage_cases (samples total : Samples) :
    percentage samples total = zero ∨
      ∃ rank : Fin finiteRanks, percentage samples total = finite false rank ∧
        Within 263 (magnitude rank) := by
  by_cases htotal : total.val = 0
  · exact .inl (percentage_of_total_zero htotal)
  by_cases hsamples : samples.val = 0
  · exact .inl (percentage_of_samples_zero hsamples)
  · right
    obtain ⟨heq, hwithin⟩ := percentage_eq_nearest hsamples htotal
    obtain ⟨rank, hrank, hval⟩ := nearest_eq hwithin (by decide)
    refine ⟨rank, heq.trans hrank, ?_⟩
    rw [hval]
    exact rounded_within hwithin (by decide)

/-- Every percentage of a report on a profile is one of a count in the total. -/
theorem exists_percentage {p : Profile} {source : String} {top : ℕ} {generatedAt : String}
    {x : Binary64} (hx : x ∈ (ofProfile p source top generatedAt).percentages) :
    ∃ samples, x = percentage samples p.total := by
  obtain ⟨s, hs, hx⟩ := List.mem_flatMap.1 hx
  obtain ⟨scope, -, rfl⟩ := List.mem_map.1 hs
  obtain ⟨e, he, rfl⟩ := List.mem_map.1 hx
  obtain ⟨row, -, rfl⟩ := List.mem_map.1 he
  exact ⟨row.2, rfl⟩

/-- **A percentage comes back as a double near it.** -/
theorem comesBackAs_percentage (samples total : Samples) :
    ∃ y, Json.reread (percentage samples total) = .ok y ∧
      ComesBackAs (percentage samples total) y := by
  rcases percentage_cases samples total with hzero | ⟨rank, hrank, hwithin⟩
  · rw [hzero]
    exact ⟨zero, Json.reread_zero, comesBackAs_zero⟩
  · rw [hrank]
    exact Json.comesBackAs_reread hwithin

/-- The JSON text of a report on a profile is read back, whatever the profile is. -/
theorem exists_reread_ofProfile (p : Profile) (source : String) (top : ℕ) (generatedAt : String) :
    let r := ofProfile p source top generatedAt
    ∃ r', r.reread = .ok r' ∧ r'.content = r.content ∧
      List.Forall₂ (fun x y => Json.reread x = .ok y ∧ ComesBackAs x y) r.percentages
        r'.percentages := by
  intro r
  apply reread_related
  intro x hx
  obtain ⟨samples, rfl⟩ := exists_percentage hx
  obtain ⟨y, hy, hback⟩ := comesBackAs_percentage samples p.total
  exact ⟨y, hy, hy, hback⟩

/-! ## Saved reports -/

section Saved

variable {path : Path} {w : World}

/-- The file of a saved report is read, whatever the profile is. -/
theorem exists_load (p : Profile) (source : String) (top : ℕ) (generatedAt : String)
    (hsound : w.files.IsSound)
    (hsaved : ((ofProfile p source top generatedAt).save host path w).1 = .ok ()) :
    let r := ofProfile p source top generatedAt
    ∃ r', (load host path (r.save host path w).2).1 = .ok r' ∧ r'.content = r.content ∧
      List.Forall₂ (fun x y => Json.reread x = .ok y ∧ ComesBackAs x y) r.percentages
        r'.percentages := by
  intro r
  obtain ⟨r', hr', hcontent, hpercentages⟩ := exists_reread_ofProfile p source top generatedAt
  exact ⟨r', (load_of_save hsound hsaved).trans (congrArg (Except.mapError _) hr'), hcontent,
    hpercentages⟩

end Saved

/-- **The percentages of a report on a profile survive the file up to two doubles**, up to one if the
power of ten of their text is a double, and unchanged if its digits are a double as well. -/
theorem load_save_percentages (p : Profile) (source : String) (top : ℕ) (generatedAt : String)
    (path : Path) (w : World) (hsound : w.files.IsSound) :
    let r := ofProfile p source top generatedAt
    let saved := r.save host path w
    let loaded := (load host path saved.2).1
    (saved.1 = .ok () ↔ Writable path w) ∧
    (saved.1 = .ok () →
      ∃ r', loaded = .ok r' ∧ r'.content = r.content ∧
        List.Forall₂ ComesBackAs r.percentages r'.percentages) := by
  intro r saved loaded
  refine ⟨save_ok_iff r path w, fun hsaved => ?_⟩
  obtain ⟨r', hloaded, hcontent, hpercentages⟩ := exists_load p source top generatedAt hsound hsaved
  exact ⟨r', hloaded, hcontent, hpercentages.imp fun _ _ h => h.2⟩

/-- Thirds, in a directory that is to be made. -/
theorem load_save_percentages_thirds :
    let p := (Profile.empty.consume [.ok "a 1", .ok "b 2"]).2
    let r := ofProfile p "in" 2 "now"
    let w : World := { files := .ofHere ["d"], out := { portions := [] }, time := "" }
    ∃ r', (load host ⟨"new/r.json"⟩ (r.save host ⟨"new/r.json"⟩ w).2).1 = .ok r' ∧
      r'.content = r.content ∧ List.Forall₂ ComesBackAs r.percentages r'.percentages := by
  intro p r w
  have hsound : w.files.IsSound := FileTree.isSound_ofHere _
  have hwritable : Writable ⟨"new/r.json"⟩ w :=
    ⟨by decide +kernel, by decide +kernel, rfl, by decide +kernel⟩
  obtain ⟨hsaved, hloaded⟩ := load_save_percentages p "in" 2 "now" ⟨"new/r.json"⟩ w hsound
  exact hloaded (hsaved.2 hwritable)

/-! ## Percentages that change -/

/-- All frames of a table are listed if the ranking is long enough. -/
theorem mem_percentages {p : Profile} {source : String} {top : ℕ} {generatedAt : String}
    {row : String × Samples} (hrow : row ∈ p.leaf.entries) (htop : p.leaf.entries.length ≤ top) :
    percentage row.2 p.total ∈ (ofProfile p source top generatedAt).percentages := by
  have hranked := p.leaf.perm_ranked
  have hlisted : row ∈ p.leaf.top top := by
    rw [FrameTable.top, List.take_of_length_le (by rwa [hranked.length_eq])]
    exact hranked.mem_iff.2 hrow
  have hleaf : Profile.Scope.leaf ∈ Profile.Scope.all := List.mem_cons_self
  refine List.mem_flatMap.2 ⟨_, List.mem_map_of_mem hleaf, ?_⟩
  exact List.mem_map_of_mem (List.mem_map_of_mem hlisted)

/-- Texts whose value is not the double they were written for: one rank away although the
coefficient is small, two ranks away, and one rank away although the power of ten is a double. -/
theorem reread_changed :
    Json.reread (ofBits 0x3B7BF4D742159E2E) = .ok (ofBits 0x3B7BF4D742159E2F) ∧
      Json.reread (ofBits 0x3D39665650DDF247) = .ok (ofBits 0x3D39665650DDF249) ∧
      Json.reread (ofBits 0x3EAE432AB0CE46C7) = .ok (ofBits 0x3EAE432AB0CE46C8) := by
  have hsmall : shortest 0x3B7BF4D742159E2E = ⟨37, -23⟩ :=
    shortest_eq_of_findSome? (by decide +kernel) (by decide)
  have htwo : shortest 0x3D39665650DDF247 = ⟨9023805551999999, -29⟩ :=
    shortest_eq_of_findSome? (by decide +kernel) (by decide)
  have hone : shortest 0x3EAE432AB0CE46C7 = ⟨9018889116521355, -22⟩ :=
    shortest_eq_of_findSome? (by decide +kernel) (by decide)
  exact ⟨Json.reread_of_shortest (by decide) (by decide) hsmall (by decide) (by decide)
      (by decide +kernel),
    Json.reread_of_shortest (by decide) (by decide) htwo (by decide) (by decide)
      (by decide +kernel),
    Json.reread_of_shortest (by decide) (by decide) hone (by decide) (by decide)
      (by decide +kernel)⟩

/-- Four counts in `10 ^ 25` samples of which three have percentages that are not read back: the bits
of each are followed by those that come back. -/
theorem load_save_percentages_changed :
    let p := (Profile.empty.consume [.ok "a 37", .ok "b 9023805552", .ok "c 90188891165213550",
      .ok "d 9999999909811099810980861"]).2
    let r := ofProfile p "in" 4 "now"
    let w : World := { files := .ofHere [], out := { portions := [] }, time := "" }
    ∃ r', (load host ⟨"r.json"⟩ (r.save host ⟨"r.json"⟩ w).2).1 = .ok r' ∧
      r'.percentages ≠ r.percentages ∧
      ∀ bits : UInt64 × UInt64, bits ∈ [(0x3B7BF4D742159E2E, 0x3B7BF4D742159E2F),
        (0x3D39665650DDF247, 0x3D39665650DDF249), (0x3EAE432AB0CE46C7, 0x3EAE432AB0CE46C8)] →
        ofBits bits.1 ∈ r.percentages ∧ ofBits bits.2 ∈ r'.percentages := by
  intro p r w
  have hsound : w.files.IsSound := FileTree.isSound_ofHere _
  have hsaved : (r.save host ⟨"r.json"⟩ w).1 = .ok () :=
    (save_ok_iff r _ w).2 ⟨by decide +kernel, by decide +kernel, rfl, by decide +kernel⟩
  obtain ⟨r', hloaded, -, hrelated⟩ := exists_load p "in" 4 "now" hsound hsaved
  have hback {x y : Binary64} (hx : x ∈ r.percentages) (hy : Json.reread x = .ok y) :
      x ∈ r.percentages ∧ y ∈ r'.percentages := by
    obtain ⟨y', hmem, hread, -⟩ := exists_mem_of_forall₂ hrelated hx
    obtain rfl : y' = y := Except.ok.inj (hread.symm.trans hy)
    exact ⟨hx, hmem⟩
  have hlisted {row : String × Samples} {x : Binary64} (hrow : row ∈ p.leaf.entries)
      (hx : percentage row.2 p.total = x) : x ∈ r.percentages :=
    hx ▸ mem_percentages hrow (by decide +kernel)
  obtain ⟨ha, hb, hc⟩ := reread_changed
  have hmema : ofBits 0x3B7BF4D742159E2E ∈ r.percentages :=
    hlisted (List.getElem_mem (by decide +kernel : 0 < p.leaf.entries.length)) (by decide +kernel)
  have hmemb : ofBits 0x3D39665650DDF247 ∈ r.percentages :=
    hlisted (List.getElem_mem (by decide +kernel : 1 < p.leaf.entries.length)) (by decide +kernel)
  have hmemc : ofBits 0x3EAE432AB0CE46C7 ∈ r.percentages :=
    hlisted (List.getElem_mem (by decide +kernel : 2 < p.leaf.entries.length)) (by decide +kernel)
  refine ⟨r', hloaded, fun hsame => ?_, fun bits hbits => ?_⟩
  · -- If nothing changed, every percentage would be read back as itself.
    have hself := List.forall₂_same.1 (hsame ▸ hrelated) _ hmema
    exact absurd (Except.ok.inj (hself.1.symm.trans ha)) (by decide +kernel)
  · rcases List.mem_cons.1 hbits with rfl | hbits
    · exact hback hmema ha
    · rcases List.mem_cons.1 hbits with rfl | hbits
      · exact hback hmemb hb
      · obtain rfl := List.mem_singleton.1 hbits
        exact hback hmemc hc

end HotFrames.Report

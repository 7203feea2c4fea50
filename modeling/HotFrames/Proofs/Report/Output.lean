import HotFrames.Proofs.Report.File

/-!
# Reports on a limited output

An output with room for `k` bytes holds the first `k` bytes of the text of a report, or the whole
text if it is not longer (`Report.writeText_within`).  This does not depend on how the text is broken
into the pieces that are offered, nor on how much of an offer each write takes: the room may end
anywhere in a piece or between two of them.
-/

namespace HotFrames

namespace Report

open World

/-- **An output with room for `k` bytes holds the first `k` bytes of the text**, and writing succeeds
if the text is not longer and the flush succeeds.  So it is for the pieces in which the text is
written, the lines, and for any other pieces that make up the text.  Nothing else in the world
changes. -/
theorem writeText_within (r : Report) (w : World) {k : ℕ} (hroom : w.out.room = some k) :
    let ends := r.writeText host w
    (w.out.EndsWithin k r.textBytes ends.1 ends.2.out ∧ ends.2 = { w with out := ends.2.out }) ∧
    ∀ pieces : List (List UInt8), pieces.flatten = r.textBytes →
      w.out.EndsWithin k r.textBytes (w.out.writePieces pieces).1 (w.out.writePieces pieces).2 := by
  have hpieces : ∀ pieces : List (List UInt8), pieces.flatten = r.textBytes →
      w.out.EndsWithin k r.textBytes (w.out.writePieces pieces).1 (w.out.writePieces pieces).2 := by
    intro pieces hflatten
    obtain ⟨htakes, hresult⟩ := w.out.writePieces_eq pieces
    rw [hflatten] at htakes hresult
    rw [hresult]
    exact htakes.endsWithin hroom
  have hlines : (r.lines.map fun line => Utf8.encode line.toList).flatten = r.textBytes :=
    (encode_join r.lines).symm
  intro ends
  have hends : ends = _ := writeLines_eq_writePieces r.lines w
  rw [hends]
  exact ⟨⟨hpieces _ hlines, rfl⟩, hpieces⟩

/-- The room ends in the middle of a character of the only frame, which stands under an empty
title. -/
theorem writeText_within_character :
    let r : Report :=
      { version := "", source := "", total := ⟨3, by decide⟩, generatedAt := ""
        sections := [{ title := "", entries := [
          { frame := "\u00e9", samples := ⟨3, by decide⟩
            percentage := .ofBits 0x4059000000000000 }] }] }
    let out : Sink :=
      { room := some 31, portions := [4, 1, 1, 9], whenFull := .refuse ⟨"sink full", false⟩ }
    let w : World := { files := .ofHere [], out, time := "" }
    out.room = some 31 ∧ (r.writeText host w).1 = .error ⟨"sink full", false⟩ ∧
      (r.writeText host w).2.out.written =
        (Utf8.encode "Total samples: 3\n\n\n  100.00%  ".toList ++ [0xC3]) := by
  intro r out w
  obtain ⟨⟨hends, -⟩, -⟩ := writeText_within r w (k := 31) rfl
  refine ⟨rfl, hends.refused (by decide +kernel) _ rfl, hends.written.trans ?_⟩
  decide +kernel

end Report

end HotFrames

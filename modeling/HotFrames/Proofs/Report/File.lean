import HotFrames.Proofs.Host
import HotFrames.Report.File

/-!
# Writing a report in a world

Lines are offered to the output one by one, up to the first that does not fit, and then the output
is flushed.  It takes what it would take of the whole text in one offer (`Report.writeText_eq`), and
nothing else in the world changes.  Keeping a report in a file leaves the output as it is
(`Report.leaves_out_save`).
-/

namespace HotFrames

namespace Report

open World

/-- The bytes of the text of a report. -/
def textBytes (r : Report) : List UInt8 := Utf8.encode r.text.toList

theorem encode_join (lines : List String) :
    Utf8.encode (String.join lines).toList =
      (lines.map fun line => Utf8.encode line.toList).flatten := by
  induction lines with
  | nil => rfl
  | cons line lines ih =>
    rw [String.join_cons, String.toList_append, Utf8.encode_append, ih, List.map_cons,
      List.flatten_cons]

/-- Lines are written as pieces: one by one until one fails, and then the output is flushed. -/
theorem writeLines_eq_writePieces (lines : List String) (w : World) :
    writeLines host lines w =
      let ends := w.out.writePieces (lines.map fun line => Utf8.encode line.toList)
      (ends.1, { w with out := ends.2 }) := by
  induction lines generalizing w with
  | nil => rfl
  | cons line lines ih =>
    have hwrite : host.writeOut (Utf8.encode line.toList) w =
        ((w.out.writeAll (Utf8.encode line.toList)).1,
          { w with out := (w.out.writeAll (Utf8.encode line.toList)).2 }) := rfl
    rw [writeLines, bind_eq hwrite, List.map_cons]
    rcases hline : w.out.writeAll (Utf8.encode line.toList) with ⟨result, out⟩
    simp only [Sink.writePieces, hline]
    cases result with
    | error fault => rfl
    | ok _ => exact ih { w with out }

/-- **The output takes of the text of a report what it has room for**, and the report is written if
that is all and the flush succeeds. -/
theorem writeText_eq (r : Report) (w : World) :
    ∃ out, w.out.Takes (Utf8.encode r.text.toList) out ∧
      r.writeText host w =
        (if w.out.part (Utf8.encode r.text.toList) = Utf8.encode r.text.toList then w.flushOut.1
          else .error w.out.fullFault, { w with out }) := by
  obtain ⟨htakes, hresult⟩ := w.out.writePieces_eq (r.lines.map fun line => Utf8.encode line.toList)
  rw [writeText, writeLines_eq_writePieces, text, encode_join]
  exact ⟨_, htakes, Prod.ext hresult rfl⟩

theorem leaves_out_makeParent (path : Path) : Leaves World.out (makeParent host path) := by
  unfold makeParent
  split
  · exact .pure _
  split
  · exact .pure _
  apply Leaves.bind fun _ => rfl
  intro there
  split
  · exact .pure _
  apply Leaves.bind fun _ => rfl
  intro result
  cases result <;> exact .pure _

/-- Keeping a report in a file leaves the output as it is. -/
theorem leaves_out_save (r : Report) (path : Path) : Leaves World.out (r.save host path) := by
  unfold save
  split
  · exact .pure _
  apply Leaves.bind fun _ => rfl
  intro isDirectory
  split
  · exact .pure _
  apply (leaves_out_makeParent path).bind
  intro made
  cases made with
  | error e => exact .pure _
  | ok _ =>
    apply (leaves_out_writeFile path _).bind
    intro result
    cases result <;> exact .pure _

end Report

end HotFrames

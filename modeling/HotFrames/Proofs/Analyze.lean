import HotFrames.Analyze
import HotFrames.Proofs.Report.File
import HotFrames.Proofs.Report.Ranking
import HotFrames.Proofs.Source.Reading

/-!
# The command on a file

The command reads the lines of a file, adds up the stacks on them and writes the report.  What an
output without a limit takes is the text of the report on these stacks (`Analyze.run_on_file`).
-/

namespace HotFrames

/-- Whether a line is that of a stack, neither blank nor malformed. -/
def Stack.isLine (line : String) : Bool := !Stack.isBlankLine line && (Stack.parse? line).isSome

/-- Blank and malformed lines hold no stack. -/
theorem Stack.ofLines_filter_isLine (lines : List String) :
    Stack.ofLines (lines.filter Stack.isLine) = Stack.ofLines lines := by
  rw [Stack.ofLines, Stack.ofLines, List.filterMap_filter]
  apply List.filterMap_congr
  intro line _
  by_cases hblank : Stack.isBlankLine line
  · rw [Stack.parse?_of_isBlankLine hblank, ite_self]
  · cases hs : Stack.parse? line <;> simp [Stack.isLine, hblank, hs]

namespace Analyze

open World

/-- The lines of a content. -/
def linesOf (content : List UInt8) : List String :=
  (Newline.lines Source.lf Source.cr content).map Source.lineText

theorem lines_ofBytes (content : List UInt8) :
    (Source.ofBytes content).lines = (linesOf content).map .ok := by
  rw [Source.lines_ofBytes, linesOf, List.map_map]
  rfl

theorem openProfile_of_file {w : World} {path : Path} {place : Place w.files.root}
    {content : List UInt8} (hplace : w.files.lookup path = .ok place)
    (hfile : place.node = .file content) :
    openProfile host path w = (.ok (.ofBytes content), w) := by
  have hexists : host.pathExists path w = (true, w) := by
    show (w.files.pathExists path, w) = (true, w)
    rw [FileTree.pathExists, hplace]
    rfl
  have hopen : host.openSource path w = (.ok (.ofBytes content), w) := by
    show (openSource w.files path, w) = (.ok (.ofBytes content), w)
    rw [openSource, hplace]
    simp only [hfile]
  rw [openProfile, bind_eq hexists]
  simp only [if_true]
  rw [bind_eq hopen]
  rfl

/-- Publishing a report on an output without a limit writes the whole of its text. -/
theorem publish_eq (r : Report) (json : Option Path) {w : World} (hroom : w.out.room = none) :
    (publish host r json w).2.out.written = w.out.written ++ Utf8.encode r.text.toList ∧
      (w.out.flushFault = none → json = none → (publish host r json w).1 = .ok .reported) := by
  obtain ⟨out, htakes, hwrite⟩ := r.writeText_eq w
  have hpart := Sink.part_of_none hroom (Utf8.encode r.text.toList)
  have hwritten : out.written = w.out.written ++ Utf8.encode r.text.toList := by
    rw [htakes.written, hpart]
  rw [if_pos hpart, flushOut_eq] at hwrite
  rcases hflush : w.out.flushFault with _ | fault
  · rw [hflush] at hwrite
    unfold publish
    rw [bind_eq hwrite]
    rcases json with _ | path
    · exact ⟨hwritten, fun _ _ => rfl⟩
    · have hsave := r.leaves_out_save path
      refine ⟨?_, nofun⟩
      refine (congrArg Sink.written (hsave.bind (fun result => ?_) { w with out })).trans hwritten
      cases result <;> exact .pure _
  · rw [hflush] at hwrite
    unfold publish
    rw [bind_eq hwrite]
    exact ⟨hwritten, nofun⟩

/-- **The command writes the report on the stacks of the file.**  The output, which has room for
everything, takes the text of the report that is described from the stacks on the file's lines.
Lines that are blank or malformed have no part in it: the report on any other lines with the same
stack lines among them is the same. -/
theorem run_on_file {w : World} {o : Options} {place : Place w.files.root} {content : List UInt8}
    (hplace : w.files.lookup o.input = .ok place) (hfile : place.node = .file content)
    (hroom : w.out.room = none) (hpos : 0 < Stack.sum (Stack.ofLines (linesOf content)))
    (hfits : Stack.sum (Stack.ofLines (linesOf content)) < Samples.bound) :
    (run host o w).2.out.written = w.out.written ++
        Utf8.encode (Report.ofStacks hfits o.input.text o.top w.time).text.toList ∧
      (w.out.flushFault = none → o.json = none → (run host o w).1 = .ok .reported) ∧
      ∀ lines, lines.filter Stack.isLine = (linesOf content).filter Stack.isLine →
        ∃ hsame : Stack.sum (Stack.ofLines lines) < Samples.bound,
          Report.ofStacks hsame o.input.text o.top w.time =
            Report.ofStacks hfits o.input.text o.top w.time := by
  have hlt : Stack.sum ([] ++ Stack.ofLines (linesOf content)) < Samples.bound := hfits
  obtain ⟨p, hconsume, htallies⟩ := Profile.tallies_empty.consume_of_lt hlt
  rw [List.nil_append] at htallies
  have hrun : run host o w =
      publish host (Report.ofStacks hfits o.input.text o.top w.time) o.json w := by
    have htotal : p.total.val ≠ 0 := by
      rw [htallies.total]
      exact Nat.ne_of_gt hpos
    have htime : host.time w = (w.time, w) := rfl
    rw [run, bind_eq (openProfile_of_file hplace hfile)]
    simp only [lines_ofBytes, hconsume, if_neg htotal]
    rw [bind_eq htime, Report.ofProfile_eq_ofStacks htallies hfits]
  obtain ⟨hwritten, hreported⟩ :=
    publish_eq (Report.ofStacks hfits o.input.text o.top w.time) o.json hroom
  rw [hrun]
  refine ⟨hwritten, hreported, fun lines hlines => ?_⟩
  have hstacks : Stack.ofLines lines = Stack.ofLines (linesOf content) := by
    rw [← Stack.ofLines_filter_isLine, hlines, Stack.ofLines_filter_isLine]
  exact ⟨hstacks ▸ hfits, by congr 1⟩

/-- A file with a blank line, a line without a count, and two leaves of two samples each, of which
only the one that was seen first is listed. -/
theorem run_on_tied_leaves :
    let content :=
      Utf8.encode "a;x 1\n\nno count\r\nb;y 2\rb;x 1\nno/ssb/dlp/pseudo/core/A;z 0\n".toList
    let w : World :=
      { files := { root := .directory [("p", .file content)], here := [] }, out := {}, time := "" }
    let text := "Total samples: 4\n\nTop leaf frames\n   50.00%  x\n\nTop service frames\n\n" ++
      "Top core frames\n    0.00%  no/ssb/dlp/pseudo/core/A\n\nTop tink frames\n"
    (run host { input := ⟨"p"⟩, top := 1 } w).2.out.written = Utf8.encode text.toList := by
  intro content w text
  have hpos : 0 < Stack.sum (Stack.ofLines (linesOf content)) := by decide
  have hfits : Stack.sum (Stack.ofLines (linesOf content)) < Samples.bound := by decide
  have htext : (@Report.ofStacks (Stack.ofLines (linesOf content)) (by decide) "p" 1 "").text =
      text := by decide +kernel
  rw [(run_on_file (o := { input := ⟨"p"⟩, top := 1 }) (w := w) rfl rfl rfl hpos hfits).1, htext]
  exact List.nil_append _

end Analyze

end HotFrames

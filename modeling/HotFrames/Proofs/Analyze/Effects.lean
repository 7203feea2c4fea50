import HotFrames.Analyze
import HotFrames.Proofs.Report.File

/-!
# The effects of the command

The command either says one line or publishes one report, or fails before it wrote anything
(`Analyze.run_effects`).  Opening a profile may be refused and reading it may fail at any place, so
the effects are described for every way in which files are opened (`World.hostWith`).  A line and a
report are written as far as the output has room (`Analyze.Says`, `Analyze.Publishes`).  Files change
in one case only: a path for the report as JSON is given, and the output has taken the whole text of
the report and was flushed.
-/

namespace HotFrames

open World

/-- The host of a world in which files are opened as told: this may be refused, or give a source
that fails at some read. -/
def World.hostWith (access : Path → Except Fault Source) : Host (StateM World) :=
  { host with openSource := fun path w => (access path, w) }

namespace Report

variable (access : Path → Except Fault Source)

theorem writeLines_hostWith (lines : List String) :
    writeLines (hostWith access) lines = writeLines host lines := by
  induction lines with
  | nil => rfl
  | cons line lines ih =>
    rw [writeLines, writeLines, ih]
    rfl

end Report

namespace Analyze

variable {access : Path → Except Fault Source} {w : World} {o : Options}

theorem publish_hostWith (r : Report) (json : Option Path) :
    publish (hostWith access) r json = publish host r json := by
  unfold publish Report.writeText
  rw [Report.writeLines_hostWith]
  rfl

/-! ## What is said and published -/

/-- What may come of saying some bytes in a world.  The output takes all of them, or the beginning
for which there is room, which is an error. -/
inductive Says (w : World) (bytes : List UInt8) (outcome : Outcome) :
    Except Failure Outcome × World → Prop
  | whole {out : Sink} (hpart : w.out.part bytes = bytes)
      (hout : out.written = w.out.written ++ bytes) :
      Says w bytes outcome (.ok outcome, { w with out })
  | cut {out : Sink} (hpart : w.out.part bytes ≠ bytes) (htaken : w.out.part bytes <+: bytes)
      (hout : out.written = w.out.written ++ w.out.part bytes) :
      Says w bytes outcome (.error (.message w.out.fullFault), { w with out })

/-- What may come of publishing a report.  The output takes the beginning of the text for which
there is room, or it takes the whole text but cannot be flushed; both are errors, and no file
changes.  Otherwise the report is kept in a file if a path is given, in the world in which the whole
text has been written, and a failure to keep it leaves the text where it is. -/
inductive Publishes (w : World) (report : Report) (json : Option Path) :
    Except Failure Outcome × World → Prop
  | cut {out : Sink} (hpart : w.out.part report.textBytes ≠ report.textBytes)
      (htaken : w.out.part report.textBytes <+: report.textBytes)
      (hout : out.written = w.out.written ++ w.out.part report.textBytes) :
      Publishes w report json (.error (.writingText w.out.fullFault), { w with out })
  | unflushed {out : Sink} {fault : Fault} (hpart : w.out.part report.textBytes = report.textBytes)
      (hflush : w.out.flushFault = some fault)
      (hout : out.written = w.out.written ++ report.textBytes) :
      Publishes w report json (.error (.writingText fault), { w with out })
  | textOnly {out : Sink} (hpart : w.out.part report.textBytes = report.textBytes)
      (hflush : w.out.flushFault = none) (hjson : json = none)
      (hout : out.written = w.out.written ++ report.textBytes) :
      Publishes w report json (.ok .reported, { w with out })
  | kept {path : Path} {later : World} (hpart : w.out.part report.textBytes = report.textBytes)
      (hflush : w.out.flushFault = none) (hjson : json = some path)
      (hout : later.out.written = w.out.written ++ report.textBytes)
      (hsave : report.save host path { w with out := later.out } = (.ok (), later)) :
      Publishes w report json (.ok .reported, later)
  | notKept {path : Path} {later : World} {e : Report.Error}
      (hpart : w.out.part report.textBytes = report.textBytes)
      (hflush : w.out.flushFault = none) (hjson : json = some path)
      (hout : later.out.written = w.out.written ++ report.textBytes)
      (hsave : report.save host path { w with out := later.out } = (.error e, later)) :
      Publishes w report json (.error (.writingJson e), later)

/-- Saying something changes no file. -/
theorem Says.files_eq {bytes : List UInt8} {outcome : Outcome}
    {r : Except Failure Outcome × World} (h : Says w bytes outcome r) : r.2.files = w.files := by
  cases h <;> rfl

theorem says_sayAndEnd (w : World) (text : String) (outcome : Outcome) :
    Says w (Utf8.encode (text ++ "\n").toList) outcome (sayAndEnd host text outcome w) := by
  obtain ⟨out, htakes, hwrite⟩ := w.writeOut_eq (Utf8.encode (text ++ "\n").toList)
  have hwrite : host.writeOut (Utf8.encode (text ++ "\n").toList) w = _ := hwrite
  unfold sayAndEnd
  rw [bind_eq hwrite]
  by_cases hpart : w.out.part (Utf8.encode (text ++ "\n").toList) =
      Utf8.encode (text ++ "\n").toList
  · rw [if_pos hpart]
    exact .whole hpart (htakes.written.trans (by rw [hpart]))
  · rw [if_neg hpart]
    exact .cut hpart (w.out.part_prefix _) htakes.written

theorem publishes_publish (w : World) (report : Report) (json : Option Path) :
    Publishes w report json (publish host report json w) := by
  obtain ⟨out, htakes, hwrite⟩ := report.writeText_eq w
  rw [← Report.textBytes] at htakes hwrite
  unfold publish
  rw [bind_eq hwrite]
  by_cases hpart : w.out.part report.textBytes = report.textBytes
  · have hout : out.written = w.out.written ++ report.textBytes := by rw [htakes.written, hpart]
    rw [if_pos hpart, flushOut_eq]
    cases hflush : w.out.flushFault with
    | some fault => exact .unflushed hpart hflush hout
    | none =>
      cases json with
      | none => exact .textOnly hpart hflush rfl hout
      | some path =>
        have hleaves : (report.save host path { w with out }).2.out = out :=
          report.leaves_out_save path { w with out }
        rcases hsave : report.save host path { w with out } with ⟨result, later⟩
        rw [hsave] at hleaves
        obtain rfl : later.out = out := hleaves
        simp only
        rw [bind_eq hsave]
        cases result with
        | ok _ => exact .kept hpart hflush rfl hout hsave
        | error e => exact .notKept hpart hflush rfl hout hsave
  · rw [if_neg hpart]
    exact .cut hpart (w.out.part_prefix _) htakes.written

/-- A file changes only where a report is kept. -/
theorem Publishes.files_eq {report : Report} {json : Option Path}
    {r : Except Failure Outcome × World} (h : Publishes w report json r)
    (hfiles : r.2.files ≠ w.files) :
    json.isSome ∧ w.out.flushFault = none ∧
      r.2.out.written = w.out.written ++ report.textBytes := by
  cases h with
  | cut | unflushed | textOnly => exact absurd rfl hfiles
  | kept _ hflush hjson hout | notKept _ hflush hjson hout =>
    exact ⟨by rw [hjson]; rfl, hflush, hout⟩

/-! ## Running the command -/

theorem openProfile_of_missing (h : w.files.pathExists o.input = false) :
    openProfile (hostWith access) o.input w = (.error (.fileNotFound o.input), w) := by
  have hexists : (hostWith access).pathExists o.input w = (false, w) := congrArg (·, w) h
  rw [openProfile, bind_eq hexists]
  rfl

theorem openProfile_of_exists (h : w.files.pathExists o.input = true) :
    openProfile (hostWith access) o.input w =
      ((access o.input).mapError .readFailed, w) := by
  have hexists : (hostWith access).pathExists o.input w = (true, w) := congrArg (·, w) h
  have hopen : (hostWith access).openSource o.input w = (access o.input, w) := rfl
  rw [openProfile, bind_eq hexists]
  simp only [if_true]
  rw [bind_eq hopen]
  cases access o.input <;> rfl

theorem run_of_missing (h : w.files.pathExists o.input = false) :
    Says w (Utf8.encode ("File not found: " ++ o.input.text ++ "\n").toList) .fileNotFound
      (run (hostWith access) o w) := by
  rw [run, bind_eq (openProfile_of_missing h)]
  exact says_sayAndEnd w ("File not found: " ++ o.input.text) .fileNotFound

theorem run_of_refused (h : w.files.pathExists o.input = true) {fault : Fault}
    (haccess : access o.input = .error fault) :
    run (hostWith access) o w = (.error (.opening o.input (.readFailed fault)), w) := by
  have hopen : openProfile (hostWith access) o.input w =
      ((access o.input).mapError .readFailed, w) := openProfile_of_exists h
  rw [haccess] at hopen
  rw [run, bind_eq hopen]
  rfl

section Opened

variable {source : Source} (h : w.files.pathExists o.input = true)
  (haccess : access o.input = .ok source)
include h haccess

theorem openProfile_of_source :
    openProfile (hostWith access) o.input w = (.ok source, w) := by
  rw [openProfile_of_exists h, haccess]
  rfl

theorem run_of_unreadable {e : Profile.Error}
    (hread : (Profile.empty.consume source.lines).1 = .error e) :
    run (hostWith access) o w = (.error (.reading o.input e), w) := by
  rw [run, bind_eq (openProfile_of_source h haccess)]
  rcases hconsume : Profile.empty.consume source.lines with ⟨result, p⟩
  rw [hconsume] at hread
  obtain rfl : result = .error e := hread
  simp only [hconsume]
  rfl

theorem run_of_no_samples (hread : (Profile.empty.consume source.lines).1 = .ok ())
    (hzero : (Profile.empty.consume source.lines).2.total.val = 0) :
    Says w (Utf8.encode "No samples found\n".toList) .noSamples
      (run (hostWith access) o w) := by
  rw [run, bind_eq (openProfile_of_source h haccess)]
  rcases hconsume : Profile.empty.consume source.lines with ⟨result, p⟩
  rw [hconsume] at hread hzero
  obtain rfl : result = .ok () := hread
  simp only [hconsume, if_pos hzero]
  exact says_sayAndEnd w "No samples found" .noSamples

theorem run_of_samples (hread : (Profile.empty.consume source.lines).1 = .ok ())
    (hpos : (Profile.empty.consume source.lines).2.total.val ≠ 0) :
    Publishes w
      (Report.ofProfile (Profile.empty.consume source.lines).2 o.input.text o.top w.time) o.json
      (run (hostWith access) o w) := by
  have htime : (hostWith access).time w = (w.time, w) := rfl
  rw [run, bind_eq (openProfile_of_source h haccess)]
  rcases hconsume : Profile.empty.consume source.lines with ⟨result, p⟩
  rw [hconsume] at hread hpos
  obtain rfl : result = .ok () := hread
  simp only [hconsume, if_neg hpos]
  rw [bind_eq htime, publish_hostWith]
  exact publishes_publish w _ o.json

end Opened

/-- A world's own host opens files as its file tree tells. -/
theorem run_host (w : World) (o : Options) :
    run host o w = run (hostWith (openSource w.files)) o w := by
  have hopen : openProfile host o.input w =
      openProfile (hostWith (openSource w.files)) o.input w := by
    have hexists (access : Path → Except Fault Source) :
        (hostWith access).pathExists o.input w = (w.files.pathExists o.input, w) := rfl
    have hhost : host.pathExists o.input w = (w.files.pathExists o.input, w) := rfl
    rw [openProfile, openProfile, bind_eq (hexists _), bind_eq hhost]
    cases w.files.pathExists o.input <;> rfl
  have hpublish (r : Report) (json : Option Path) :
      publish (hostWith (openSource w.files)) r json = publish host r json :=
    publish_hostWith r json
  rcases hresult : openProfile host o.input w with ⟨result, later⟩
  rw [run, run, bind_eq hresult, bind_eq (hopen ▸ hresult)]
  simp only [hpublish]
  rfl

/-- **The effects of the command**, however files are opened and whatever room the output has.  A
profile that is missing or without samples is answered by one line, and a profile that cannot be
opened, read or added up by an error that leaves the world as it was.  Otherwise the report is
published.  A file changes only if a path for the report as JSON is given and the output holds the
whole text of the report and was flushed. -/
theorem run_effects (access : Path → Except Fault Source) (w : World) (o : Options) :
    let r := run (hostWith access) o w
    (w.files.pathExists o.input = false →
      Says w (Utf8.encode ("File not found: " ++ o.input.text ++ "\n").toList) .fileNotFound r) ∧
    (w.files.pathExists o.input = true →
      (∀ fault, access o.input = .error fault →
        r = (.error (.opening o.input (.readFailed fault)), w)) ∧
      ∀ source, access o.input = .ok source →
        let read := Profile.empty.consume source.lines
        let report := Report.ofProfile read.2 o.input.text o.top w.time
        (∀ e, read.1 = .error e → r = (.error (.reading o.input e), w)) ∧
        (read.1 = .ok () → read.2.total.val = 0 →
          Says w (Utf8.encode "No samples found\n".toList) .noSamples r) ∧
        (read.1 = .ok () → read.2.total.val ≠ 0 → Publishes w report o.json r)) ∧
    (r.2.files ≠ w.files →
      o.json.isSome ∧ w.out.flushFault = none ∧
        ∃ source, access o.input = .ok source ∧
          let read := Profile.empty.consume source.lines
          let report := Report.ofProfile read.2 o.input.text o.top w.time
          read.1 = .ok () ∧ r.2.out.written = w.out.written ++ report.textBytes) ∧
    run host o w = run (hostWith (openSource w.files)) o w := by
  intro r
  refine ⟨run_of_missing, fun h => ⟨fun fault haccess => run_of_refused h haccess,
    fun source haccess => ⟨fun e => run_of_unreadable h haccess, run_of_no_samples h haccess,
      run_of_samples h haccess⟩⟩, fun hfiles => ?_, run_host w o⟩
  -- Of all the ways in which the command may end, only publishing a report changes files.
  cases hexists : w.files.pathExists o.input with
  | false => exact absurd (run_of_missing hexists).files_eq hfiles
  | true =>
    cases haccess : access o.input with
    | error fault => exact absurd (congrArg (·.2.files) (run_of_refused hexists haccess)) hfiles
    | ok source =>
      cases hread : (Profile.empty.consume source.lines).1 with
      | error e =>
        exact absurd (congrArg (·.2.files) (run_of_unreadable hexists haccess hread)) hfiles
      | ok _ =>
        by_cases hzero : (Profile.empty.consume source.lines).2.total.val = 0
        · exact absurd (run_of_no_samples hexists haccess hread hzero).files_eq hfiles
        · obtain ⟨hjson, hflush, hwritten⟩ :=
            (run_of_samples hexists haccess hread hzero).files_eq hfiles
          exact ⟨hjson, hflush, source, rfl, hread, hwritten⟩

/-- The report is to replace the profile itself, but the output, which takes the text in portions,
cannot be flushed. -/
theorem run_unflushed :
    let files : FileTree :=
      { root := .directory [("p", .file (Utf8.encode "a;b 3\n".toList))], here := [] }
    let out : Sink := { portions := [7, 1], flushFault := some ⟨"disk full", false⟩ }
    let r := run host { input := ⟨"p"⟩, json := some ⟨"p"⟩ } { files, out, time := "" }
    r.1 = .error (.writingText ⟨"disk full", false⟩) ∧ r.2.files = files := by
  intro files out r
  let source : Source := .ofBytes (Utf8.encode "a;b 3\n".toList)
  have hread : (Profile.empty.consume source.lines).1 = .ok () := by decide +kernel
  have hpos : (Profile.empty.consume source.lines).2.total.val ≠ 0 := by decide +kernel
  obtain ⟨-, hopened, -, hhost⟩ := run_effects (openSource files) { files, out, time := "" }
    { input := ⟨"p"⟩, json := some ⟨"p"⟩ }
  have hpublishes := ((hopened rfl).2 source rfl).2.2 hread hpos
  rw [← hhost] at hpublishes
  generalize hr : run host { input := ⟨"p"⟩, json := some ⟨"p"⟩ } { files, out, time := "" } = ends
    at hpublishes
  rw [show r = ends from hr]
  cases hpublishes with
  | cut hpart => exact absurd (Sink.part_of_none rfl _) hpart
  | unflushed _ hflush =>
    cases hflush
    exact ⟨rfl, rfl⟩
  | textOnly _ hflush | kept _ hflush | notKept _ hflush => cases hflush

end Analyze

end HotFrames

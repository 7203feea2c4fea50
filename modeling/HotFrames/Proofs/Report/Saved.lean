import HotFrames.Proofs.FileTree
import HotFrames.Proofs.Host
import HotFrames.Proofs.Report.Json
import HotFrames.Report.File

/-!
# Reading back a saved report

A report is saved wherever a file can be put, whatever it holds (`Report.Writable`), and reading the
file gives the report with its percentages read back (`Report.load_of_save`).  So all texts and
counts come back, unless a percentage is not finite, which makes the file unreadable
(`Report.load_save`).
-/

namespace HotFrames.Report

open World

variable {path : Path} {w later : World}

/-- Whether a report can be saved at a path: the path is not empty and does not lead to a directory,
the missing directories above it can be made, and then an empty file could be put there. -/
def Writable (path : Path) (w : World) : Prop :=
  path.text.isEmpty = false ∧ w.files.isDirectory path = false ∧
    (makeParent host path w).1 = .ok () ∧
    ((makeParent host path w).2.files.writeFile path []).isOk = true

/-- Making the directories above a path leaves the world as it is, or makes the nearest ancestor and
those above it. -/
theorem makeParent_cases (path : Path) (w : World) :
    (makeParent host path w).2 = w ∨
      ∃ parent, path.parent? = some parent ∧
        (makeParent host path w).2 = { w with files := (w.files.makeDirectories parent).2 } := by
  unfold makeParent
  cases path.parent? with
  | none => exact .inl rfl
  | some parent =>
    by_cases hempty : parent.text.isEmpty = true
    · simp only [if_pos hempty]
      exact .inl rfl
    · have hask : host.pathExists parent w = (w.files.pathExists parent, w) := rfl
      simp only [if_neg hempty]
      rw [bind_eq hask]
      by_cases hexists : w.files.pathExists parent = true
      · rw [if_pos hexists]
        exact .inl rfl
      · have hmade : (host.makeDirectories parent w).2 =
            { w with files := (w.files.makeDirectories parent).2 } := rfl
        rcases hmake : host.makeDirectories parent w with ⟨result, later⟩
        rw [hmake] at hmade
        rw [if_neg hexists, bind_eq hmake]
        refine .inr ⟨parent, rfl, ?_⟩
        cases result <;> exact hmade

theorem isSound_makeParent (hsound : w.files.IsSound) (path : Path) :
    (makeParent host path w).2.files.IsSound := by
  rcases makeParent_cases path w with hsame | ⟨parent, -, hmade⟩
  · rwa [hsame]
  · rw [hmade]
    exact hsound.makeDirectories parent

/-! ## Saving -/

theorem save_of_empty (r : Report) (h : path.text.isEmpty = true) :
    r.save host path w = (.error (.invalidPath "Path is empty"), w) := by
  rw [save, if_pos h]
  rfl

theorem save_of_isDirectory (r : Report) (h : path.text.isEmpty = false)
    (hdir : w.files.isDirectory path = true) :
    r.save host path w =
      (.error (.invalidPath ("Path is a directory: " ++ path.text)), w) := by
  have hask : host.isDirectory path w = (true, w) := congrArg (·, w) hdir
  rw [save, h]
  simp only [Bool.false_eq_true, if_false]
  rw [bind_eq hask]
  rfl

section File

variable (r : Report) (h : path.text.isEmpty = false) (hdir : w.files.isDirectory path = false)
include h hdir

theorem save_of_makeParent_error {e : Error} (hparent : makeParent host path w = (.error e, later)) :
    r.save host path w = (.error e, later) := by
  have hask : host.isDirectory path w = (false, w) := congrArg (·, w) hdir
  rw [save, h]
  simp only [Bool.false_eq_true, if_false]
  rw [bind_eq hask]
  simp only [Bool.false_eq_true, if_false]
  rw [bind_eq hparent]
  rfl

theorem save_of_makeParent (hparent : makeParent host path w = (.ok (), later)) :
    r.save host path w =
      match later.files.writeFile path (Utf8.encode r.jsonText.toList) with
      | .ok files => (.ok (), { later with files })
      | .error e => (.error (.writeFailed e.fault), later) := by
  have hask : host.isDirectory path w = (false, w) := congrArg (·, w) hdir
  rw [save, h]
  simp only [Bool.false_eq_true, if_false]
  rw [bind_eq hask]
  simp only [Bool.false_eq_true, if_false]
  rw [bind_eq hparent]
  simp only
  have hwrite : host.writeFile path (Utf8.encode r.jsonText.toList) later =
      later.writeFile path (Utf8.encode r.jsonText.toList) := rfl
  unfold World.writeFile at hwrite
  cases hfile : later.files.writeFile path (Utf8.encode r.jsonText.toList) with
  | ok files =>
    rw [hfile] at hwrite
    rw [bind_eq hwrite]
    rfl
  | error e =>
    rw [hfile] at hwrite
    rw [bind_eq hwrite]
    rfl

end File

/-- A report that is saved is in a file, in a file system with the missing directories made. -/
theorem save_ok_iff (r : Report) (path : Path) (w : World) :
    (r.save host path w).1 = .ok () ↔ Writable path w := by
  unfold Writable
  cases hempty : path.text.isEmpty with
  | true => simp [save_of_empty r hempty]
  | false =>
    cases hdir : w.files.isDirectory path with
    | true => simp [save_of_isDirectory r hempty hdir]
    | false =>
      rcases hparent : makeParent host path w with ⟨result, later⟩
      cases result with
      | error e => simp [save_of_makeParent_error r hempty hdir hparent]
      | ok _ =>
        rw [save_of_makeParent r hempty hdir hparent,
          later.files.isOk_writeFile path [] (Utf8.encode r.jsonText.toList)]
        cases later.files.writeFile path (Utf8.encode r.jsonText.toList) <;>
          simp [Except.isOk, Except.toBool]

/-- Reading a file reads the report of its bytes. -/
theorem load_of_file {place : Place w.files.root} {content : List UInt8}
    (hplace : w.files.lookup path = .ok place) (hfile : place.node = .file content) :
    (load host path w).1 = (ofJsonText content).mapError .badJson := by
  have hopen : host.openSource path w = (.ok (.ofBytes content), w) := by
    show (World.openSource w.files path, w) = _
    rw [World.openSource, hplace]
    simp only [hfile]
  have hread : (Source.ofBytes content).readAll = .ok content := by
    simp [Source.ofBytes, Source.readAll, Source.contents, Except.map]
  rw [load, bind_eq hopen]
  simp only [hread]
  rfl

/-- **A saved report is read as the report read back.** -/
theorem load_of_save {r : Report} (hsound : w.files.IsSound)
    (hsaved : (r.save host path w).1 = .ok ()) :
    (load host path (r.save host path w).2).1 = r.reread.mapError .badJson := by
  obtain ⟨hempty, hdir, hparent, -⟩ := (save_ok_iff r path w).1 hsaved
  have hlater := isSound_makeParent hsound path
  rcases hmake : makeParent host path w with ⟨result, later⟩
  rw [hmake] at hparent hlater
  obtain rfl : result = .ok () := hparent
  rw [save_of_makeParent r hempty hdir hmake] at hsaved ⊢
  cases hwrite : later.files.writeFile path (Utf8.encode r.jsonText.toList) with
  | error e =>
    rw [hwrite] at hsaved
    cases hsaved
  | ok files =>
    obtain ⟨place, hlookup, hnode⟩ := FileTree.lookup_of_writeFile hlater hwrite
    exact (load_of_file hlookup hnode).trans (by rw [ofJsonText_jsonText])

/-- **A saved report is read back with the texts and counts it has**, whatever characters and counts
these are, if its percentages are finite and at most `10 ^ 40`.  A percentage that is not finite does
not keep a report from being saved, but the file does not hold what is wanted. -/
theorem load_save (r : Report) (path : Path) (w : World) (hsound : w.files.IsSound)
    (hmoderate : ∀ x ∈ r.percentages, x.isFinite = true → x.IsAtMost (10 ^ 40)) :
    let saved := r.save host path w
    let loaded := (load host path saved.2).1
    (saved.1 = .ok () ↔ Writable path w) ∧
    (saved.1 = .ok () →
      ((∀ x ∈ r.percentages, x.isFinite = true) →
        ∃ r', loaded = .ok r' ∧ r'.content = r.content) ∧
      ((∃ x ∈ r.percentages, x.isFinite = false) →
        ∃ e, loaded = .error (.badJson e) ∧ e.errorClass = .data)) := by
  refine ⟨save_ok_iff r path w, fun hsaved => ⟨fun hfinite => ?_, fun hbad => ?_⟩⟩
  · obtain ⟨r', hr', hcontent⟩ := reread_ok fun x hx => hmoderate x hx (hfinite x hx)
    refine ⟨r', ?_, hcontent⟩
    rw [load_of_save hsound hsaved, hr']
    rfl
  · refine ⟨notFinite, ?_, rfl⟩
    rw [load_of_save hsound hsaved, reread_error hmoderate hbad]
    rfl

/-- A report with control characters, quotes, the largest count and empty lists, saved in a directory
that is to be made, with `10 ^ 40` percent and with a second percentage that is zero or not finite. -/
theorem load_save_control_characters :
    let r (x : Binary64) : Report :=
      { version := "\x00\"\\\x7f", source := "\u20ac/\x1f", total := .max
        sections := [
          { title := "\n\x08", entries := [
              { frame := "\t", samples := .max, percentage := .ofBits 0x483D6329F1C35CA5 },
              { frame := "", samples := .zero, percentage := x }] },
          { title := "", entries := [] }]
        generatedAt := "\r" }
    let w : World := { files := .ofHere ["d"], out := { portions := [] }, time := "" }
    let loaded (x : Binary64) :=
      (load host ⟨"new/./r.json"⟩ ((r x).save host ⟨"new/./r.json"⟩ w).2).1
    (∃ r', loaded .zero = .ok r' ∧ r'.content = (r .zero).content) ∧
      ∃ e, loaded .nan = .error (.badJson e) ∧ e.errorClass = .data := by
  intro r w loaded
  have hsound : w.files.IsSound :=
    { root := rfl
      here := fun content h => by cases h }
  have hwritable : Writable ⟨"new/./r.json"⟩ w :=
    ⟨by decide +kernel, by decide +kernel, rfl, by decide +kernel⟩
  obtain ⟨hsaved, hloaded⟩ := load_save (r .zero) ⟨"new/./r.json"⟩ w hsound
    (by decide +kernel)
  obtain ⟨hsaved', hloaded'⟩ := load_save (r .nan) ⟨"new/./r.json"⟩ w hsound
    (by decide +kernel)
  exact ⟨(hloaded (hsaved.2 hwritable)).1 (by decide +kernel),
    (hloaded' (hsaved'.2 hwritable)).2 (by decide +kernel)⟩

end HotFrames.Report

import HotFrames.Proofs.FileTree.Growth
import HotFrames.Proofs.Path
import HotFrames.Proofs.Report.Saved

/-!
# What keeping a report changes

Keeping a report makes the missing directories above its path and then puts its file there.  The
former leaves everything that is there as it is (`Report.growsBy_makeParent`), and so does the latter
apart from the file itself.  So a report that is kept adds its file and directories above it, and one
that cannot be kept adds such directories at most (`Report.save_changes`).
-/

namespace HotFrames.Report

open World

variable {path : Path} {w : World}

/-- Making the directories above a path adds lexical ancestors of it that were missing. -/
theorem growsBy_makeParent (hsound : w.files.IsSound) (path : Path) :
    w.files.GrowsBy (makeParent host path w).2.files path.ancestors := by
  rcases makeParent_cases path w with hsame | ⟨parent, hparent, hmade⟩
  · rw [hsame]
    exact .refl _ _
  · rw [hmade, Path.ancestors_of_parent? hparent]
    exact FileTree.growsBy_makeDirectories hsound parent

theorem makeParent_eq (path : Path) (w : World) :
    (makeParent host path w).2 = { w with files := (makeParent host path w).2.files } := by
  rcases makeParent_cases path w with hsame | ⟨parent, -, hmade⟩
  · rw [hsame]
  · rw [hmade]

/-- The text of a report as JSON, as it is kept in a file. -/
def jsonBytes (r : Report) : List UInt8 := Utf8.encode r.jsonText.toList

/-- **What keeping a report changes.**  Where it succeeds, the path leads to a file that holds the JSON
text of the report and nothing else, whatever was there before, and elsewhere directories were added
that are lexical ancestors of the path and were missing.  Where it fails, nothing changes but that such
directories may have been added.  An empty path and one that leads to a directory are refused before
anything changes.  Nothing but files is touched in any case. -/
theorem save_changes (r : Report) (path : Path) (w : World) (hsound : w.files.IsSound) :
    let saved := r.save host path w
    (saved.1 = .ok () → w.files.GainsFile saved.2.files path r.jsonBytes path.ancestors) ∧
    (∀ e, saved.1 = .error e → w.files.GrowsBy saved.2.files path.ancestors) ∧
    (path.text.isEmpty = true ∨ w.files.isDirectory path = true →
      (∃ reason, saved.1 = .error (.invalidPath reason)) ∧ saved.2 = w) ∧
    saved.2 = { w with files := saved.2.files } := by
  cases hempty : path.text.isEmpty with
  | true =>
    rw [save_of_empty r hempty]
    exact ⟨nofun, fun _ _ => .refl _ _, fun _ => ⟨⟨_, rfl⟩, rfl⟩, rfl⟩
  | false =>
    cases hdir : w.files.isDirectory path with
    | true =>
      rw [save_of_isDirectory r hempty hdir]
      exact ⟨nofun, fun _ _ => .refl _ _, fun _ => ⟨⟨_, rfl⟩, rfl⟩, rfl⟩
    | false =>
      have hgrows := growsBy_makeParent hsound path
      have hsound' := isSound_makeParent hsound path
      have heq := makeParent_eq path w
      rcases hparent : makeParent host path w with ⟨result, later⟩
      rw [hparent] at hgrows hsound' heq
      cases result with
      | error e =>
        rw [save_of_makeParent_error r hempty hdir hparent]
        exact ⟨nofun, fun _ _ => hgrows, nofun, heq⟩
      | ok _ =>
        rw [save_of_makeParent r hempty hdir hparent]
        cases hwrite : later.files.writeFile path (Utf8.encode r.jsonText.toList) with
        | error e => exact ⟨nofun, fun _ _ => hgrows, nofun, heq⟩
        | ok files =>
          refine ⟨fun _ => hgrows.gainsFile hsound' hwrite, nofun, nofun, ?_⟩
          exact congrArg (fun w' : World => { w' with files }) heq

/-- A report kept in place of a longer file, past a directory that is made for it, and one that cannot
be kept below that file: the directory is made, and then the file is in the way. -/
theorem save_changes_longer_file :
    let r : Report := { version := "", source := "", total := .zero, sections := [], generatedAt := "" }
    let w : World :=
      { files :=
          { root := .directory [("d", .directory [("r.json", .file (List.replicate 1000 0))])]
            here := ["d"] }
        out := { portions := [] }
        time := "" }
    let kept : Path := ⟨"new/../r.json"⟩
    let below : Path := ⟨"new/../r.json/x"⟩
    w.files.GainsFile (r.save host kept w).2.files kept r.jsonBytes kept.ancestors ∧
      (r.save host below w).2.files.isDirectory ⟨"new"⟩ = true ∧
      w.files.GrowsBy (r.save host below w).2.files below.ancestors := by
  intro r w kept below
  have hsound : w.files.IsSound :=
    { root := rfl
      here := fun content h => by cases h }
  have hwritable : Writable ⟨"new/../r.json"⟩ w :=
    ⟨by decide +kernel, by decide +kernel, rfl, by decide +kernel⟩
  obtain ⟨hover, -⟩ := save_changes r kept w hsound
  obtain ⟨-, hfailed, -⟩ := save_changes r below w hsound
  have hlost : (r.save host below w).1.isOk = false := by decide +kernel
  have hmade : (r.save host below w).2.files.isDirectory ⟨"new"⟩ = true := by decide +kernel
  refine ⟨hover ((save_ok_iff r kept w).2 hwritable), hmade, ?_⟩
  generalize r.save host below w = saved at hfailed hlost ⊢
  rcases saved with ⟨_ | e, later⟩
  · exact hfailed _ rfl
  · cases hlost

end HotFrames.Report

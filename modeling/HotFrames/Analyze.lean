import HotFrames.Report.File
import HotFrames.Source.Lines

/-!
# The analyze command

Reads a profile, writes the report on it to the output, and keeps it as JSON if asked to. A profile
that does not exist or holds no samples gives a message instead of a report. Nothing is written
before the whole profile has been read, and the JSON file is touched only after the whole text of
the report has been written and flushed.
-/

namespace HotFrames

/-- What to analyze and how. -/
structure Options where
  /-- The profile. -/
  input : Path := ⟨""⟩
  /-- The number of entries in a section. -/
  top : Nat := 12
  /-- Where to keep the report as JSON. -/
  json : Option Path := none
  deriving DecidableEq, Repr

namespace Options

/-- The largest number of entries in a section. -/
def maxTop : Nat := 1000

/-- Options that make no sense. -/
inductive Invalid
  | emptyInput
  | zeroTop
  | topTooLarge
  deriving DecidableEq, Repr

/-- The text shown to the user. -/
def Invalid.message : Invalid → String
  | emptyInput => "Input path cannot be empty"
  | zeroTop => "top must be greater than 0"
  | topTooLarge => "top is too large (max " ++ Nat.repr maxTop ++ ")"

/-- Refuses options that make no sense. -/
def check (o : Options) : Except Invalid Unit :=
  if o.input.text.isEmpty then .error .emptyInput
  else if o.top = 0 then .error .zeroTop
  else if maxTop < o.top then .error .topTooLarge
  else .ok ()

end Options

namespace Analyze

/-- How the command ends when nothing fails. -/
inductive Outcome
  | reported
  | noSamples
  | fileNotFound
  deriving DecidableEq, Repr

namespace Outcome

/-- The exit code of the process. -/
def exitCode : Outcome → Nat
  | reported => 0
  | noSamples => 1
  | fileNotFound => 2

end Outcome

/-- A failure of the command, with what it was doing. -/
inductive Failure
  | opening (path : Path) (error : Profile.Error)
  | reading (path : Path) (error : Profile.Error)
  /-- a message instead of a report could not be written -/
  | message (fault : Fault)
  | writingText (fault : Fault)
  | writingJson (error : Report.Error)
  deriving DecidableEq, Repr

namespace Failure

/-- What failed, and then the causes, each beneath the one before. -/
def chain : Failure → List String
  | opening path error => ("Failed to open " ++ path.text) :: error.chain
  | reading path error => ("Failed to read " ++ path.text) :: error.chain
  | message fault => [fault.message]
  | writingText fault => ["Failed to write report", fault.message]
  | writingJson error => "Failed to write JSON report" :: error.chain

end Failure

variable {m : Type → Type} [Monad m]

/-- Opens a profile. -/
def openProfile (host : Host m) (path : Path) : m (Except Profile.Error Source) := do
  if ← host.pathExists path then
    match ← host.openSource path with
    | .ok source => pure (.ok source)
    | .error fault => pure (.error (.readFailed fault))
  else pure (.error (.fileNotFound path))

/-- Writes a message to the output and ends with an outcome. -/
def sayAndEnd (host : Host m) (text : String) (outcome : Outcome) :
    m (Except Failure Outcome) := do
  match ← host.writeOut (Utf8.encode (text ++ "\n").toList) with
  | .ok () => pure (.ok outcome)
  | .error fault => pure (.error (.message fault))

/-- Writes a report to the output, and keeps it as JSON if a path is given. -/
def publish (host : Host m) (report : Report) (json : Option Path) :
    m (Except Failure Outcome) := do
  match ← report.writeText host with
  | .error fault => pure (.error (.writingText fault))
  | .ok () =>
    match json with
    | none => pure (.ok .reported)
    | some path =>
      match ← report.save host path with
      | .ok () => pure (.ok .reported)
      | .error e => pure (.error (.writingJson e))

/-- Runs the command. -/
def run (host : Host m) (o : Options) : m (Except Failure Outcome) := do
  match ← openProfile host o.input with
  | .error (.fileNotFound path) => sayAndEnd host ("File not found: " ++ path.text) .fileNotFound
  | .error e => pure (.error (.opening o.input e))
  | .ok source =>
    match Profile.empty.consume source.lines with
    | (.error e, _) => pure (.error (.reading o.input e))
    | (.ok (), profile) =>
      if profile.total.val = 0 then sayAndEnd host "No samples found" .noSamples
      else
        let report := Report.ofProfile profile o.input.text o.top (← host.time)
        publish host report o.json

end Analyze

end HotFrames

import HotFrames.Host
import HotFrames.Report.Json
import HotFrames.Report.Text

/-!
# Reports on a host

Writing the text of a report to the output, keeping its JSON text in a file, and what can go wrong
on the way.
-/

namespace HotFrames.Report

/-- A failure to write a report or to read one. -/
inductive Error
  | writeFailed (fault : Fault)
  | badJson (error : Json.Error)
  | invalidPath (reason : String)
  deriving DecidableEq, Repr

namespace Error

/-- The text shown to the user. -/
def message : Error → String
  | writeFailed fault => "Failed to write file: " ++ fault.message
  | badJson error => "Failed to serialize JSON: " ++ error.message
  | invalidPath reason => "Invalid output path: " ++ reason

/-- The text and those of the causes beneath it. -/
def chain : Error → List String
  | writeFailed fault => [(writeFailed fault).message, fault.message]
  | badJson error => [(badJson error).message, error.message]
  | e => [e.message]

end Error

variable {m : Type → Type} [Monad m]

/-- Writes lines to the output until one fails, and then flushes. -/
def writeLines (host : Host m) : List String → m (Except Fault Unit)
  | [] => host.flushOut
  | line :: lines => do
    match ← host.writeOut (Utf8.encode line.toList) with
    | .error fault => pure (.error fault)
    | .ok () => writeLines host lines

/-- Writes the text of a report to the output. -/
def writeText (host : Host m) (r : Report) : m (Except Fault Unit) := writeLines host r.lines

/-- Makes the missing directories above a path. -/
def makeParent (host : Host m) (path : Path) : m (Except Error Unit) := do
  match path.parent? with
  | none => pure (.ok ())
  | some parent =>
    if parent.text.isEmpty then pure (.ok ())
    else if ← host.pathExists parent then pure (.ok ())
    else
      match ← host.makeDirectories parent with
      | .ok () => pure (.ok ())
      | .error fault =>
        pure (.error (.invalidPath
          ("Cannot create directory " ++ parent.text ++ ": " ++ fault.message)))

/-- Keeps the JSON text of a report in a file. The path must not be empty or lead to a directory;
missing directories above it are made. -/
def save (host : Host m) (r : Report) (path : Path) : m (Except Error Unit) := do
  if path.text.isEmpty then pure (.error (.invalidPath "Path is empty"))
  else if ← host.isDirectory path then
    pure (.error (.invalidPath ("Path is a directory: " ++ path.text)))
  else
    match ← makeParent host path with
    | .error e => pure (.error e)
    | .ok () =>
      match ← host.writeFile path (Utf8.encode r.jsonText.toList) with
      | .ok () => pure (.ok ())
      | .error fault => pure (.error (.writeFailed fault))

/-- Reads a report back from a file. -/
def load (host : Host m) (path : Path) : m (Except Error Report) := do
  match ← host.openSource path with
  | .error fault => pure (.error (.writeFailed fault))
  | .ok source =>
    match source.readAll with
    | .error fault => pure (.error (.badJson (.unreadable fault)))
    | .ok bytes => pure ((ofJsonText bytes).mapError .badJson)

end HotFrames.Report

import HotFrames.CommandLine
import HotFrames.Timestamp
import Std.Time.DateTime.Timestamp

/-!
# The program

The host that is the process itself, and the entry point. Everything that decides anything is in the
command; here requests go to the operating system and its errors come back as faults.
-/

namespace HotFrames.Native

/-! ### Errors -/

/-- The text of an error of the operating system, with its number. -/
def numbered (code : UInt32) (details : String) : String :=
  details ++ " (os error " ++ Nat.repr code.toNat ++ ")"

/-- The text of an error. -/
def errorMessage : IO.Error → String
  | .alreadyExists _ code details => numbered code details
  | .otherError code details => numbered code details
  | .resourceBusy code details => numbered code details
  | .resourceVanished code details => numbered code details
  | .unsupportedOperation code details => numbered code details
  | .hardwareFault code details => numbered code details
  | .unsatisfiedConstraints code details => numbered code details
  | .illegalOperation code details => numbered code details
  | .protocolError code details => numbered code details
  | .timeExpired code details => numbered code details
  | .interrupted _ code details => numbered code details
  | .noFileOrDirectory _ code details => numbered code details
  | .invalidArgument _ code details => numbered code details
  | .permissionDenied _ code details => numbered code details
  | .resourceExhausted _ code details => numbered code details
  | .inappropriateType _ code details => numbered code details
  | .noSuchThing _ code details => numbered code details
  | .unexpectedEof => "unexpected end of file"
  | .userError message => message

/-- An error as a fault. -/
def faultOf (e : IO.Error) : Fault :=
  match e with
  | .interrupted .. => { message := errorMessage e, interrupted := true }
  | _ => { message := errorMessage e }

/-- Runs an action and gives its error as a fault. -/
def attempt {α : Type} (act : IO α) : IO (Except Fault α) := do
  match ← act.toBaseIO with
  | .ok value => pure (.ok value)
  | .error e => pure (.error (faultOf e))

/-- Whether an action ends without an error. -/
def succeeds {α : Type} (act : IO α) : IO Bool := do
  match ← act.toBaseIO with
  | .ok _ => pure true
  | .error _ => pure false

/-! ### Files -/

/-- Whether a path leads to anything. -/
def pathExists (path : Path) : IO Bool := succeeds (IO.FS.realPath path.text)

/-- Whether a path leads to a directory, which is where a dot can follow it. -/
def isDirectory (path : Path) : IO Bool :=
  if path.text.isEmpty then pure false else pathExists ⟨path.text ++ "/."⟩

/-- The most bytes that are asked for at once. -/
def blockSize : USize := 65536

/-- What an open file delivers, up to its end or the first fault that is not an interruption, after
what it delivered before, latest first. -/
partial def deliveries (file : IO.FS.Handle) (before : List Delivery) : IO (List Delivery) := do
  match ← attempt (file.read blockSize) with
  | .ok bytes =>
    if bytes.isEmpty then pure before.reverse
    else deliveries file (.data bytes.toList :: before)
  | .error fault =>
    if fault.interrupted then deliveries file before
    else pure (.fault fault :: before).reverse

/-- Opens a file and reads it. -/
def openSource (path : Path) : IO (Except Fault Source) := do
  match ← attempt (IO.FS.Handle.mk path.text .read) with
  | .ok file => pure (.ok { deliveries := ← deliveries file [] })
  | .error fault => pure (.error fault)

/-- Makes the first of the paths, and before it the missing ones among the others, which are its
ancestors from the nearest on. -/
def makeLineage : List Path → IO (Except Fault Unit)
  | [] => pure (.ok ())
  | path :: above => do
    if path.text.isEmpty then return .ok ()
    let settle (e : IO.Error) : IO (Except Fault Unit) := do
      if ← isDirectory path then pure (.ok ()) else pure (.error (faultOf e))
    match ← (IO.FS.createDir path.text).toBaseIO with
    | .ok () => pure (.ok ())
    | .error (.noFileOrDirectory ..) =>
      match ← makeLineage above with
      | .error fault => pure (.error fault)
      | .ok () =>
        match ← (IO.FS.createDir path.text).toBaseIO with
        | .ok () => pure (.ok ())
        | .error e => settle e
    | .error e => settle e

/-- Creates a file with a content, or replaces the content of a file. -/
def writeFile (path : Path) (content : List UInt8) : IO (Except Fault Unit) :=
  attempt (IO.FS.writeBinFile path.text ⟨content.toArray⟩)

/-! ### The host -/

/-- The time now. -/
def time : IO String := do
  let now ← Std.Time.Timestamp.now
  pure (Timestamp.ofNanoseconds now.toNanosecondsSinceUnixEpoch.val.toNat).text

/-- The process as a host. -/
def host : Host IO where
  pathExists := pathExists
  isDirectory := isDirectory
  openSource := openSource
  makeDirectories path := makeLineage (path :: path.ancestors)
  writeFile := writeFile
  writeOut bytes := do
    let out ← IO.getStdout
    attempt (out.write ⟨bytes.toArray⟩)
  flushOut := do
    let out ← IO.getStdout
    attempt out.flush
  time := time

end HotFrames.Native

/-- Runs the command, shows its errors, and gives its exit code. -/
def main (args : List String) : IO UInt32 := do
  let exit ← HotFrames.CommandLine.run HotFrames.Native.host args
  IO.eprint exit.errors
  (← IO.getStdout).flush
  pure exit.code.toUInt32

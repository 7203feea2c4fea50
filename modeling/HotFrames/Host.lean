import HotFrames.FileTree
import HotFrames.Sink
import HotFrames.Source

/-!
# Hosts

What the command needs from its surroundings: the file system, a place for its output, and the
time. A host offers these as actions of a monad. The host of a `World` is the one to reason about:
its actions are functions on a file tree and a sink.
-/

namespace HotFrames

/-- The actions that a command may take. -/
structure Host (m : Type → Type) where
  /-- Whether a path leads to anything. -/
  pathExists : Path → m Bool
  /-- Whether a path leads to a directory. -/
  isDirectory : Path → m Bool
  /-- Opens a file for reading. -/
  openSource : Path → m (Except Fault Source)
  /-- Makes a directory and the missing ones among its ancestors. -/
  makeDirectories : Path → m (Except Fault Unit)
  /-- Creates a file with a content, or replaces the content of a file. -/
  writeFile : Path → List UInt8 → m (Except Fault Unit)
  /-- Writes bytes to the output. -/
  writeOut : List UInt8 → m (Except Fault Unit)
  /-- Flushes the output. -/
  flushOut : m (Except Fault Unit)
  /-- The time, as reports show it. -/
  time : m String

/-- A file system, an output and a time. -/
structure World where
  files : FileTree
  out : Sink
  time : String

/-- The fault that reports an error of the file system. -/
def SystemError.fault (e : SystemError) : Fault := ⟨e.message, false⟩

namespace World

/-- The source of what a path leads to. A directory can be opened, but reading it fails. -/
def openSource (files : FileTree) (p : Path) : Except Fault Source :=
  match files.lookup p with
  | .error e => .error e.fault
  | .ok place =>
    match place.node with
    | .directory _ => .ok (.failing SystemError.isADirectory.fault)
    | .file content => .ok (.ofBytes content)

/-- Makes directories in the world's file system. -/
def makeDirectories (w : World) (p : Path) : Except Fault Unit × World :=
  let (result, files) := w.files.makeDirectories p
  (result.mapError SystemError.fault, { w with files })

/-- Puts a file into the world's file system. -/
def writeFile (w : World) (p : Path) (content : List UInt8) : Except Fault Unit × World :=
  match w.files.writeFile p content with
  | .ok files => (.ok (), { w with files })
  | .error e => (.error e.fault, w)

/-- Writes to the world's output. -/
def writeOut (w : World) (bytes : List UInt8) : Except Fault Unit × World :=
  let (result, out) := w.out.writeAll bytes
  (result, { w with out })

/-- Flushes the world's output. -/
def flushOut (w : World) : Except Fault Unit × World :=
  let (result, out) := w.out.flush
  (result, { w with out })

/-- The host whose actions change a world. -/
def host : Host (StateM World) where
  pathExists p := fun w => (w.files.pathExists p, w)
  isDirectory p := fun w => (w.files.isDirectory p, w)
  openSource p := fun w => (openSource w.files p, w)
  makeDirectories p := fun w => w.makeDirectories p
  writeFile p content := fun w => w.writeFile p content
  writeOut bytes := fun w => w.writeOut bytes
  flushOut := fun w => w.flushOut
  time := fun w => (w.time, w)

end World

end HotFrames

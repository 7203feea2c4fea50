import HotFrames.FileTree.Place
import HotFrames.Path

/-!
# File trees

A file system of directories and files, without links, in which one directory is the current one.

A look-up takes the components of a path in turn, from the current directory or from the root. Each
one but the last has to lead to a directory. A dot stays, two dots lead to the directory above (at
the root, to the root), any other component is a name of at most 255 bytes. A path that ends in a
slash has to lead to a directory. A path that is empty, holds a NUL or has 4096 bytes or more leads
nowhere.

Creating a file and making a directory look up all but the last component and then treat that one
by rules of their own.
-/

namespace HotFrames

/-- Why a request to the file system fails. -/
inductive SystemError
  | notFound
  | alreadyExists
  | notADirectory
  | isADirectory
  | nameTooLong
  | nulInPath
  deriving DecidableEq, Repr

/-- The text of the error. -/
def SystemError.message : SystemError → String
  | notFound => "No such file or directory (os error 2)"
  | alreadyExists => "File exists (os error 17)"
  | notADirectory => "Not a directory (os error 20)"
  | isADirectory => "Is a directory (os error 21)"
  | nameTooLong => "File name too long (os error 36)"
  | nulInPath => "file name contained an unexpected NUL byte"

/-- A file system with a current directory. -/
structure FileTree where
  root : Node
  /-- The current directory. -/
  here : Location

namespace FileTree

/-- The file system that holds nothing but its current directory and those above it. -/
def ofHere (here : Location) : FileTree where
  root := here.foldr (fun name child => .directory [(name, child)]) (.directory [])
  here := here

/-- What is at a location, without what is below it. -/
def entryAt? (t : FileTree) (loc : Location) : Option Entry := t.root.entryAt? loc

/-- The file system with an entry under a name in the directory at a place. -/
def put (t : FileTree) (dir : Place t.root) (name : String) (e : Entry) : FileTree :=
  { t with root := t.root.put dir.location name e }

theorem entryAt?_put_self (t : FileTree) (dir : Place t.root) (name : String) (e : Entry)
    (h : dir.node.isDirectory) : (t.put dir name e).entryAt? (dir.location ++ [name]) = some e := by
  refine Node.entryAt?_put_self name e ?_
  rw [Node.entryAt?, dir.at?_location, Option.map_some, Node.entry_of_isDirectory h]

theorem entryAt?_put_of_not_below (t : FileTree) (dir : Place t.root) {name : String} (e : Entry)
    {loc : Location} (h : ¬ dir.location ++ [name] <+: loc) :
    (t.put dir name e).entryAt? loc = t.entryAt? loc :=
  Node.entryAt?_put_of_not_below e h

/-- What the current directory holds, with locations from there. A directory comes before what it
holds, and names go by the order of their characters. -/
def listing (t : FileTree) : List (Location × Entry) :=
  match t.root.at? t.here with
  | some node => node.contents
  | none => []

/-! ### Look-up -/

/-- The longest name of a file, in bytes. -/
def maxName : Nat := 255

/-- The number of bytes from which a path is too long. -/
def maxPath : Nat := 4096

/-- Refuses paths that lead nowhere whatever the tree holds. -/
def checkPath (p : Path) : Except SystemError Unit :=
  if '\x00' ∈ p.text.toList then .error .nulInPath
  else if p.text.isEmpty then .error .notFound
  else if maxPath ≤ p.text.utf8ByteSize then .error .nameTooLong
  else .ok ()

/-- The place that a directory has under a name, if the name is not too long. -/
def child? (t : FileTree) (dir : Place t.root) (name : String) :
    Except SystemError (Option (Place t.root)) :=
  if maxName < name.utf8ByteSize then .error .nameTooLong else .ok (dir.child? name)

/-- The place that a component leads to from a directory. -/
def follow (t : FileTree) (dir : Place t.root) (name : String) :
    Except SystemError (Place t.root) :=
  if name = "." then .ok dir
  else if name = ".." then .ok dir.up
  else
    match t.child? dir name with
    | .error e => .error e
    | .ok none => .error .notFound
    | .ok (some place) => .ok place

/-- One step into a directory. -/
def enter (t : FileTree) (dir : Place t.root) (name : String) :
    Except SystemError (Place t.root) :=
  match t.follow dir name with
  | .error e => .error e
  | .ok place => if place.node.isDirectory then .ok place else .error .notADirectory

/-- The place where the look-up of a path starts. -/
def origin (t : FileTree) (p : Path) : Except SystemError (Place t.root) :=
  if p.isAbsolute then .ok .top
  else
    match t.here.foldlM Place.child? (.top : Place t.root) with
    | some place => .ok place
    | none => .error .notFound

/-- The directory that holds the last component of a path, with that component; without components
the path is the root. -/
def holder (t : FileTree) (p : Path) : Except SystemError (Place t.root × Option String) := do
  checkPath p
  let dir ← p.components.dropLast.foldlM t.enter (← t.origin p)
  .ok (dir, p.components.getLast?)

/-- The place of a path. -/
def lookup (t : FileTree) (p : Path) : Except SystemError (Place t.root) := do
  match ← t.holder p with
  | (dir, none) => .ok dir
  | (dir, some name) =>
    let place ← t.follow dir name
    if p.endsInSlash && !place.node.isDirectory then .error .notADirectory else .ok place

/-- Whether a path leads to anything. -/
def pathExists (t : FileTree) (p : Path) : Bool := (t.lookup p).isOk

/-- Whether a path leads to a directory. -/
def isDirectory (t : FileTree) (p : Path) : Bool :=
  match t.lookup p with
  | .ok place => place.node.isDirectory
  | .error _ => false

/-! ### Changes -/

/-- Makes one directory. Its holder has to exist, and the place has to be free. -/
def makeDirectory (t : FileTree) (p : Path) : Except SystemError FileTree := do
  match ← t.holder p with
  | (_, none) => .error .alreadyExists
  | (dir, some name) =>
    if name = "." ∨ name = ".." then .error .alreadyExists
    else
      match ← t.child? dir name with
      | some _ => .error .alreadyExists
      | none => .ok (t.put dir name .directory)

/-- Makes the first of the paths, and before it the missing ones among the others, which are its
ancestors from the nearest on. Nothing is left to do for the empty path, nor for a place that turns
out to be a directory. The tree is the one reached when an error ends the work. -/
def makeLineage (t : FileTree) : List Path → Except SystemError Unit × FileTree
  | [] => (.ok (), t)
  | p :: above =>
    if p.text.isEmpty then (.ok (), t)
    else
      match t.makeDirectory p with
      | .ok t => (.ok (), t)
      | .error .notFound =>
        match t.makeLineage above with
        | (.error e, t) => (.error e, t)
        | (.ok (), t) =>
          match t.makeDirectory p with
          | .ok t => (.ok (), t)
          | .error e => (if t.isDirectory p then .ok () else .error e, t)
      | .error e => (if t.isDirectory p then .ok () else .error e, t)

/-- Makes a directory and the missing ones among its lexical ancestors; nothing for the empty path.
A path that leads nowhere whatever the tree holds is refused before its ancestors are looked at. -/
def makeDirectories (t : FileTree) (p : Path) : Except SystemError Unit × FileTree :=
  if p.text.isEmpty then (.ok (), t)
  else
    match checkPath p with
    | .error e => (.error e, t)
    | .ok () => t.makeLineage (p :: p.ancestors)

/-- Puts a file with a content at a path, in place of a file that is there. A path that ends in a
slash or a dot cannot name a file, whether or not it leads anywhere. -/
def writeFile (t : FileTree) (p : Path) (content : List UInt8) : Except SystemError FileTree := do
  match ← t.holder p with
  | (_, none) => .error .isADirectory
  | (dir, some name) =>
    if name = "." ∨ name = ".." ∨ p.endsInSlash then .error .isADirectory
    else
      match ← t.child? dir name with
      | some place =>
        if place.node.isDirectory then .error .isADirectory
        else .ok (t.put dir name (.file content))
      | none => .ok (t.put dir name (.file content))

end FileTree

end HotFrames

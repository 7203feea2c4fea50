/-!
# Paths

A path is a text that slashes cut into pieces. A look-up passes over empty pieces. The lexical
ancestors of a path also pass over single dots, except for a dot that opens the path: they are the
texts that are left when the path is cut after each of its other named pieces.
-/

namespace HotFrames

/-- The name of a place in the file system. -/
structure Path where
  text : String
  deriving DecidableEq, Repr, Inhabited

namespace Path

/-- The texts between the slashes. -/
def pieces (p : Path) : List String := (p.text.toList.splitOn '/').map String.ofList

/-- The path made of pieces. -/
def ofPieces (pieces : List String) : Path := ⟨"/".intercalate pieces⟩

/-- Whether the path starts at the root. -/
def isAbsolute (p : Path) : Bool := p.text.toList.head? == some '/'

/-- Whether the path asks for a directory by ending in a slash. -/
def endsInSlash (p : Path) : Bool := p.text.toList.getLast? == some '/'

/-- The steps of a look-up, `.` and `..` among them. -/
def components (p : Path) : List String := p.pieces.filter (· ≠ "")

/-- Whether a piece counts for the ancestors; `first` tells that it opens the path. -/
def isNamed (first : Bool) (piece : String) : Bool := piece ≠ "" && (first || piece ≠ ".")

/-- The initial parts of a path that end in a named piece, from the longest. The pieces are given
last one first, for the path and for its parts. -/
def namedParts : List String → List (List String)
  | [] => []
  | p :: ps => if isNamed ps.isEmpty p then (p :: ps) :: namedParts ps else namedParts ps

/-- The last ancestor: the root or the empty path. -/
def top (p : Path) : Path := ⟨if p.isAbsolute then "/" else ""⟩

/-- The lexical ancestors of a path, from the nearest to the root or the empty path. A path that
names nothing has none. -/
def ancestors (p : Path) : List Path :=
  match namedParts p.pieces.reverse with
  | [] => []
  | _ :: parts => parts.map (fun part => ofPieces part.reverse) ++ [p.top]

/-- The nearest lexical ancestor. -/
def parent? (p : Path) : Option Path :=
  match namedParts p.pieces.reverse with
  | [] => none
  | [_] => some p.top
  | _ :: part :: _ => some (ofPieces part.reverse)

theorem parent?_eq_head? (p : Path) : p.parent? = p.ancestors.head? := by
  unfold parent? ancestors
  rcases namedParts p.pieces.reverse with _ | ⟨_, _ | _⟩ <;> rfl

end Path

end HotFrames

import HotFrames.Samples
import HotFrames.Text.Cut
import HotFrames.Text.Numeral

/-!
# Stacks

One record of a collapsed-stack profile: the frames of a call stack, outermost first, and the
number of samples taken on exactly that stack. In a profile it is one line: the frames joined by
semicolons, a space, and the count.
-/

namespace HotFrames

/-- A call stack with its samples. -/
structure Stack where
  /-- The frames, outermost first. -/
  frames : List String
  /-- The samples taken on this stack. -/
  count : Samples
  deriving DecidableEq, Repr

namespace Stack

/-- The innermost frame; the empty name for a stack without frames. -/
def leaf (s : Stack) : String := s.frames.getLast?.getD ""

/-- The frames of a joined stack. Frames may be empty, and there is always at least one. -/
def splitFrames (joined : List Char) : List String := (joined.splitOn ';').map String.ofList

/-- The count written by digits, which may follow one plus sign. -/
def readCount? (token : List Char) : Option Samples :=
  (Numeral.readSigned? Samples.bound token).bind Samples.ofNat?

/-- The stack on a line. Blanks around the line are ignored, the text after the last space is the
count, and a count that is no number below `2 ^ 128` makes the line malformed. -/
def parse? (line : String) : Option Stack :=
  match cutLast ' ' (Blank.trim line.toList) with
  | none => none
  | some (joined, token) =>
    (readCount? token).map fun count => { frames := splitFrames joined, count }

/-- The line for a stack. -/
def line (s : Stack) : String := ";".intercalate s.frames ++ " " ++ Nat.repr s.count.val

/-- Whether a line holds nothing but blanks. -/
def isBlankLine (line : String) : Bool := (Blank.trim line.toList).isEmpty

theorem parse?_of_isBlankLine {line : String} (h : isBlankLine line) : parse? line = none := by
  have : Blank.trim line.toList = [] := List.isEmpty_iff.1 h
  simp [parse?, this, cutLast]

end Stack

end HotFrames

import HotFrames.Report
import HotFrames.Text.Numeral

/-!
# The text of a report

The total stands on the first line. Each section follows after an empty line: its title, and a line
for each entry with the percentage, to two places and right-aligned, and the frame. The last place
of a percentage is rounded from its exact value, a half to the even neighbour.
-/

namespace HotFrames

/-! ### Decimal places -/

namespace Binary64

/-- The text of a magnitude with a number of decimal places. -/
def placesText (places rank : Nat) : String :=
  let scale := Nat.pow 10 places
  let scaled := roundDiv (units rank * scale) unitsPerOne
  Nat.repr (scaled / scale) ++ "." ++ Padded.zeros places (scaled % scale)

/-- The text of a number with a number of decimal places. The sign of a zero is shown. -/
def withPlaces (places : Nat) : Binary64 → String
  | finite negative rank => (if negative then "-" else "") ++ placesText places rank.val
  | infinite negative => if negative then "-inf" else "inf"
  | nan => "NaN"

end Binary64

/-! ### Lines -/

namespace Report

/-- The line of an entry. -/
def Entry.line (e : Entry) : String :=
  "  " ++ Padded.right 6 (e.percentage.withPlaces 2) ++ "%  " ++ e.frame ++ "\n"

/-- The lines of a section. -/
def Section.lines (s : Section) : List String :=
  ["\n", s.title ++ "\n"] ++ s.entries.map Entry.line

/-- The lines of a report, each with its line feed. -/
def lines (r : Report) : List String :=
  ("Total samples: " ++ Nat.repr r.total.val ++ "\n") :: r.sections.flatMap Section.lines

/-- The text of a report. -/
def text (r : Report) : String := String.join r.lines

end Report

end HotFrames

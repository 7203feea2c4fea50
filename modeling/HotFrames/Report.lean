import HotFrames.Binary64
import HotFrames.Profile

/-!
# Reports

A report ranks the frames of each table of a profile and gives each listed frame its share of the
total in percent. Shares are doubles: the two counts are rounded to doubles, then their quotient,
then its product with one hundred.
-/

namespace HotFrames

namespace Report

/-- A ranked frame. -/
structure Entry where
  frame : String
  samples : Samples
  /-- The share of the total, in percent. -/
  percentage : Binary64
  deriving DecidableEq, Repr

/-- A ranking with its heading. -/
structure Section where
  title : String
  entries : List Entry
  deriving DecidableEq, Repr

end Report

/-- The rankings of a profile. -/
structure Report where
  /-- The version of the report's layout. -/
  version : String
  /-- Where the profile came from. -/
  source : String
  /-- The samples of the whole profile. -/
  total : Samples
  sections : List Report.Section
  /-- The time at which the report was made. -/
  generatedAt : String
  deriving DecidableEq, Repr

namespace Report

/-- The version that new reports carry. -/
def currentVersion : String := "1.0.0"

/-- The share of a count in a total, in percent; zero if the total is zero. -/
def percentage (samples total : Samples) : Binary64 :=
  if total.val = 0 then .zero
  else Binary64.ofNat samples.val / Binary64.ofNat total.val * Binary64.ofNat 100

/-- The heading of a scope. -/
def title (scope : Profile.Scope) : String := "Top " ++ scope.label ++ " frames"

/-- The first `top` frames of a table. -/
def ranking (table : FrameTable) (total : Samples) (top : Nat) : List Entry :=
  (table.top top).map fun e =>
    { frame := e.1, samples := e.2, percentage := percentage e.2 total }

/-- The report on a profile: for each scope the first `top` frames. -/
def ofProfile (p : Profile) (source : String) (top : Nat) (generatedAt : String) : Report where
  version := currentVersion
  source := source
  total := p.total
  sections := Profile.Scope.all.map fun scope =>
    { title := title scope, entries := ranking (p.table scope) p.total top }
  generatedAt := generatedAt

end Report

end HotFrames

import HotFrames.Json.Record
import HotFrames.Report

/-!
# Reports as JSON

The JSON value of a report, and how a report is read back. All fields are needed; counts are read
from plain digits only, percentages from any number.
-/

namespace HotFrames.Report

/-! ### Writing -/

/-- The JSON value of an entry. -/
def Entry.toJson (e : Entry) : Json :=
  .object [
    ("frame", .string e.frame),
    ("samples", .natural e.samples.val),
    ("percentage", .real e.percentage)]

/-- The JSON value of a section. -/
def Section.toJson (s : Section) : Json :=
  .object [("title", .string s.title), ("entries", .array (s.entries.map Entry.toJson))]

/-- The JSON value of a report. -/
def toJson (r : Report) : Json :=
  .object [
    ("version", .string r.version),
    ("source", .string r.source),
    ("total_samples", .natural r.total.val),
    ("sections", .array (r.sections.map Section.toJson)),
    ("generated_at", .string r.generatedAt)]

/-- The JSON text of a report. -/
def jsonText (r : Report) : String := r.toJson.text

/-! ### Reading -/

/-- Reads a count. -/
def samplesReader : Json.Reader Samples :=
  (Json.Reader.natural Samples.bound).filterMap Samples.ofNat?

/-- A field of a draft that is a structure of optional values. -/
def draftField {δ α : Type} (name : String) (get : δ → Option α) (set : δ → α → δ)
    (reader : Json.Reader α) : Json.Field δ where
  name := name
  isSet draft := (get draft).isSome
  reader draft := reader.map (set draft)

/-- The fields of an entry read so far. -/
structure Entry.Draft where
  frame : Option String := none
  samples : Option Samples := none
  percentage : Option Binary64 := none

/-- How an entry is read. -/
def Entry.shape : Json.Shape Entry.Draft Entry where
  name := "ReportEntry"
  start := {}
  fields := [
    draftField "frame" (·.frame) (fun d v => { d with frame := some v }) Json.Reader.string,
    draftField "samples" (·.samples) (fun d v => { d with samples := some v }) samplesReader,
    draftField "percentage" (·.percentage) (fun d v => { d with percentage := some v })
      Json.Reader.real]
  finish
    | { frame := some frame, samples := some samples, percentage := some percentage } =>
      some { frame, samples, percentage }
    | _ => none

/-- The fields of a section read so far. -/
structure Section.Draft where
  title : Option String := none
  entries : Option (List Entry) := none

/-- How a section is read. -/
def Section.shape : Json.Shape Section.Draft Section where
  name := "ReportSection"
  start := {}
  fields := [
    draftField "title" (·.title) (fun d v => { d with title := some v }) Json.Reader.string,
    draftField "entries" (·.entries) (fun d v => { d with entries := some v })
      (Json.Reader.list (Json.Reader.record Entry.shape))]
  finish
    | { title := some title, entries := some entries } => some { title, entries }
    | _ => none

/-- The fields of a report read so far. -/
structure Draft where
  version : Option String := none
  source : Option String := none
  total : Option Samples := none
  sections : Option (List Section) := none
  generatedAt : Option String := none

/-- How a report is read. -/
def shape : Json.Shape Draft Report where
  name := "Report"
  start := {}
  fields := [
    draftField "version" (·.version) (fun d v => { d with version := some v }) Json.Reader.string,
    draftField "source" (·.source) (fun d v => { d with source := some v }) Json.Reader.string,
    draftField "total_samples" (·.total) (fun d v => { d with total := some v }) samplesReader,
    draftField "sections" (·.sections) (fun d v => { d with sections := some v })
      (Json.Reader.list (Json.Reader.record Section.shape)),
    draftField "generated_at" (·.generatedAt) (fun d v => { d with generatedAt := some v })
      Json.Reader.string]
  finish
    | { version := some version, source := some source, total := some total,
        sections := some sections, generatedAt := some generatedAt } =>
      some { version, source, total, sections, generatedAt }
    | _ => none

/-- The report of a JSON text. -/
def ofJsonText (s : List UInt8) : Except Json.Error Report :=
  (Json.Reader.record shape).readWhole s

end HotFrames.Report

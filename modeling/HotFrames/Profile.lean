import HotFrames.FrameTable
import HotFrames.Namespace
import HotFrames.Path
import HotFrames.Source
import HotFrames.Stack

/-!
# Profiles

A profile is what the lines read so far add up to: the total, the samples per leaf frame, and for
each namespace the samples per deepest frame. Only the total is checked for overflow; no table can
outgrow it.
-/

namespace HotFrames

/-- The sums over the lines read so far. -/
structure Profile where
  /-- The samples of all recorded stacks. -/
  total : Samples := .zero
  /-- The samples per leaf frame. -/
  leaf : FrameTable := .empty
  /-- For each namespace, the samples per deepest frame of it. -/
  spaces : PerNamespace FrameTable := .ofFn fun _ => .empty
  /-- The lines seen, blank ones included. -/
  linesRead : Nat := 0
  /-- The stacks recorded. -/
  parsed : Nat := 0
  /-- The lines that are neither blank nor a stack. -/
  skipped : Nat := 0
  deriving DecidableEq

namespace Profile

/-- The profile of no lines. -/
def empty : Profile := {}

instance : Inhabited Profile := ⟨empty⟩

/-! ### Errors -/

/-- A failure to read or to add up a profile. -/
inductive Error
  | fileNotFound (path : Path)
  | readFailed (fault : Fault)
  /-- the line at which the total left the range of a count, counted from one -/
  | sampleOverflow (line : Nat)
  deriving DecidableEq, Repr

namespace Error

/-- The text shown to the user. -/
def message : Error → String
  | fileNotFound path => "File not found: " ++ path.text
  | readFailed fault => "Failed to read input: " ++ fault.message
  | sampleOverflow line => "Sample total overflowed at line " ++ Nat.repr line

/-- The text and those of the causes beneath it. -/
def chain : Error → List String
  | readFailed fault => [(readFailed fault).message, fault.message]
  | e => [e.message]

end Error

/-! ### Recording -/

/-- The tables after a stack: the deepest frame of each namespace, if any, gets its samples. -/
def addToSpaces (spaces : PerNamespace FrameTable) (s : Stack) : PerNamespace FrameTable :=
  .ofFn fun n =>
    match n.deepest? s.frames with
    | some frame => (spaces.get n).add frame s.count
    | none => spaces.get n

/-- Records a stack. A total beyond the range of a count is an error. -/
def record (p : Profile) (s : Stack) : Except Error Profile :=
  match p.total.add? s.count with
  | none => .error (.sampleOverflow p.linesRead)
  | some total =>
    .ok { p with
      total
      leaf := p.leaf.add s.leaf s.count
      spaces := addToSpaces p.spaces s
      parsed := p.parsed + 1 }

/-- Reads one line. The answer tells whether it was a stack; a line whose stack overflows the total
is counted as read and changes nothing else. -/
def recordLine (p : Profile) (line : String) : Except Error Bool × Profile :=
  let p := { p with linesRead := p.linesRead + 1 }
  match Stack.parse? line with
  | some s =>
    match p.record s with
    | .ok p => (.ok true, p)
    | .error e => (.error e, p)
  | none =>
    (.ok false, if Stack.isBlankLine line then p else { p with skipped := p.skipped + 1 })

/-- Reads lines until the first fault or overflow; what was recorded by then is kept. -/
def consume : Profile → List (Except Fault String) → Except Error Unit × Profile
  | p, [] => (.ok (), p)
  | p, .error f :: _ => (.error (.readFailed f), p)
  | p, .ok line :: rest =>
    match p.recordLine line with
    | (.ok _, p) => p.consume rest
    | (.error e, p) => (.error e, p)

/-! ### Tables -/

/-- What a table of a profile counts: leaf frames, or the deepest frames of a namespace. -/
inductive Scope
  | leaf
  | within (n : Namespace)
  deriving DecidableEq, Repr

namespace Scope

/-- The scopes in the order of the report. -/
def all : List Scope := leaf :: Namespace.all.map within

/-- The name of a scope. -/
def label : Scope → String
  | leaf => "leaf"
  | within n => n.label

end Scope

/-- The table of a scope. -/
def table (p : Profile) : Scope → FrameTable
  | .leaf => p.leaf
  | .within n => p.spaces.get n

end Profile

end HotFrames

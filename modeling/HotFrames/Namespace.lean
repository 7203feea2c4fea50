/-!
# Namespaces

The areas of the profiled code that get a table of their own. A frame belongs to a namespace when
it contains one of the namespace's markers, and a stack counts for the deepest such frame.
-/

namespace HotFrames

/-- An area of the code, tracked in its own table. -/
inductive Namespace
  /-- the service layer -/
  | service
  /-- the core library -/
  | core
  /-- the crypto library, in either of its two homes -/
  | tink
  deriving DecidableEq, Repr

namespace Namespace

/-- The namespaces in the order of the report. -/
def all : List Namespace := [service, core, tink]

/-- The texts that place a frame in a namespace. -/
def markers : Namespace → List String
  | service => ["no/ssb/dlp/pseudo/service"]
  | core => ["no/ssb/dlp/pseudo/core"]
  | tink => ["com/google/crypto/tink", "no/ssb/crypto/tink"]

/-- The name of a namespace in a section title. -/
def label : Namespace → String
  | service => "service"
  | core => "core"
  | tink => "tink"

theorem mem_all (n : Namespace) : n ∈ all := by cases n <;> decide

end Namespace

/-! ### Values for namespaces -/

/-- One value for each namespace. -/
structure PerNamespace (α : Type) where
  service : α
  core : α
  tink : α
  deriving DecidableEq, Repr

namespace PerNamespace

variable {α : Type}

/-- The value of a namespace. -/
def get (t : PerNamespace α) : Namespace → α
  | .service => t.service
  | .core => t.core
  | .tink => t.tink

/-- The values of a function. -/
def ofFn (f : Namespace → α) : PerNamespace α := ⟨f .service, f .core, f .tink⟩

@[simp] theorem get_ofFn (f : Namespace → α) (n : Namespace) : (ofFn f).get n = f n := by
  cases n <;> rfl

end PerNamespace

/-! ### Frames -/

section Occurs

variable {α : Type} [BEq α]

/-- Whether `part` occurs in a list without gaps. -/
def occurs (part : List α) : List α → Bool
  | [] => part.isEmpty
  | c :: cs => part.isPrefixOf (c :: cs) || occurs part cs

theorem occurs_iff [LawfulBEq α] {part cs : List α} : occurs part cs ↔ part <:+: cs := by
  induction cs with
  | nil => simp [occurs]
  | cons c cs ih => simp [occurs, ih, List.infix_cons_iff]

end Occurs

namespace Namespace

/-- The markers of each namespace, character by character. -/
def patterns : PerNamespace (List (List Char)) := .ofFn fun n => n.markers.map String.toList

/-- Whether a frame contains one of the markers. -/
def contains (n : Namespace) (frame : String) : Bool :=
  let chars := frame.toList
  (patterns.get n).any fun pattern => occurs pattern chars

/-- The frame closest to the leaf that belongs to the namespace; frames are outermost first. -/
def deepest? (n : Namespace) (frames : List String) : Option String :=
  frames.reverse.find? n.contains

theorem contains_iff {n : Namespace} {frame : String} :
    n.contains frame ↔ ∃ marker ∈ n.markers, marker.toList <:+: frame.toList := by
  simp [contains, patterns, occurs_iff]

end Namespace

end HotFrames

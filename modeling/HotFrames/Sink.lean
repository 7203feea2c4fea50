import HotFrames.Source

/-!
# Sinks

A sink takes bytes. It may take less than it is offered, it may have room for a limited number of
bytes only, and its flush may fail. When there is no room left, a write that offers something either
fails or takes nothing. `writeAll` offers a text again and again until all of it is taken.

A write that is only interrupted is offered again at once, so it takes no part here: the fault of a
refusal is one that ends the attempt.
-/

namespace HotFrames

/-- What a full write reports when the sink accepts no byte at all. -/
def Fault.writeZero : Fault := ⟨"failed to write whole buffer", false⟩

/-- What a sink without room does with a write. -/
inductive WhenFull
  | refuse (fault : Fault)
  | takeNothing
  deriving DecidableEq, Repr

/-- A receiver of bytes. -/
structure Sink where
  /-- What each write took, the latest first. -/
  taken : List (List UInt8) := []
  /-- The bytes it will still take; no limit if absent. -/
  room : Option Nat := none
  /-- The most that each of the next writes takes; a write takes at least one byte if there is
  room, and writes beyond the list take all that fits. -/
  portions : List Nat := []
  /-- What happens when there is no room. -/
  whenFull : WhenFull := .takeNothing
  /-- The fault of a flush, if flushing fails. -/
  flushFault : Option Fault := none
  deriving DecidableEq, Repr

namespace Sink

/-- The bytes taken so far, in order. -/
def written (s : Sink) : List UInt8 := s.taken.reverse.flatten

/-- How many of `n > 0` offered bytes the next write takes. -/
def share (s : Sink) (n : Nat) : Nat :=
  let portion := match s.portions with
    | [] => n
    | p :: _ => min n (max p 1)
  match s.room with
  | none => portion
  | some room => min portion room

/-- One write: the number of bytes taken, or the fault. An empty write has no effect. -/
def write (s : Sink) (bytes : List UInt8) : Except Fault Nat × Sink :=
  if bytes.isEmpty then (.ok 0, s)
  else
    let n := s.share bytes.length
    if n = 0 then
      match s.whenFull with
      | .refuse fault => (.error fault, s)
      | .takeNothing => (.ok 0, s)
    else
      (.ok n, { s with
        taken := bytes.take n :: s.taken
        room := s.room.map (· - n)
        portions := s.portions.tail })

/-- A write adds the bytes that it takes. -/
theorem written_of_write {s later : Sink} {bytes : List UInt8} {n : Nat}
    (h : s.write bytes = (.ok n, later)) : later.written = s.written ++ bytes.take n := by
  unfold write at h
  simp only at h
  repeat' split at h
  all_goals cases h
  · simp
  · simp
  · simp [written]

/-- A write that fails adds nothing. -/
theorem written_of_write_error {s later : Sink} {bytes : List UInt8} {fault : Fault}
    (h : s.write bytes = (.error fault, later)) : later.written = s.written := by
  unfold write at h
  simp only at h
  repeat' split at h
  all_goals cases h
  rfl

/-- Writes all bytes. A write that takes nothing ends the attempt. -/
def writeAll (s : Sink) (bytes : List UInt8) : Except Fault Unit × Sink :=
  match _h : bytes with
  | [] => (.ok (), s)
  | _ :: _ =>
    match s.write bytes with
    | (.error fault, s) => (.error fault, s)
    | (.ok 0, s) => (.error .writeZero, s)
    | (.ok (n + 1), s) => s.writeAll (bytes.drop (n + 1))
termination_by bytes.length
decreasing_by simp only [_h, List.length_drop, List.length_cons]; omega

/-- Flushes the sink. -/
def flush (s : Sink) : Except Fault Unit × Sink :=
  match s.flushFault with
  | some fault => (.error fault, s)
  | none => (.ok (), s)

end Sink

end HotFrames

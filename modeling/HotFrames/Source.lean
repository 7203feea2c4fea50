/-!
# Buffered sources

A source delivers its bytes in pieces, one piece or one fault for each read. A fault is what a
request to the surroundings reports when it fails: a text for the user, and the mark that a read was
only interrupted and may be tried again.

A source is read through a buffer of fixed capacity: when the buffer is empty, one read fills it
with at most that many bytes, and what is left of a larger piece waits for the next reads.
`readUntil` collects bytes across reads up to a given byte.
-/

namespace HotFrames

/-- A failure reported by a source, a sink or the file system. -/
structure Fault where
  /-- The text shown to the user. -/
  message : String
  /-- Whether a buffered reader tries the same read again instead of giving up. -/
  interrupted : Bool := false
  deriving DecidableEq, Repr, Inhabited

/-- What one read of a source gives. -/
inductive Delivery
  | data (bytes : List UInt8)
  | fault (fault : Fault)
  deriving DecidableEq, Repr

/-- A source behind a buffer. -/
structure Source where
  /-- The deliveries still to come. Empty pieces are passed over. -/
  deliveries : List Delivery
  /-- The most bytes that one read puts into the buffer. -/
  capacity : Nat := 8192
  /-- The bytes read and not yet taken. -/
  buffer : List UInt8 := []
  deriving DecidableEq, Repr

namespace Delivery

/-- An upper bound on the reads that a delivery serves, counting its bytes twice. -/
def weight : Delivery → Nat
  | data bytes => 2 * bytes.length + 1
  | fault _ => 1

end Delivery

namespace Source

/-- A source that holds its whole content in one piece. -/
def ofBytes (bytes : List UInt8) : Source := { deliveries := [.data bytes] }

/-- A source whose first read fails. -/
def failing (fault : Fault) : Source := { deliveries := [.fault fault] }

/-- A measure of what is still to come, which every read and every byte taken makes smaller. -/
def weight (s : Source) : Nat :=
  s.buffer.length + s.deliveries.foldr (fun d n => d.weight + n) 0

/-- The bytes of all deliveries, unless one of them is a fault that is not retried. -/
def contents : List Delivery → Except Fault (List UInt8)
  | [] => .ok []
  | .data bytes :: rest => (contents rest).map (bytes ++ ·)
  | .fault f :: rest => if f.interrupted then contents rest else .error f

/-- Everything that is still to come. -/
def readAll (s : Source) : Except Fault (List UInt8) :=
  (contents s.deliveries).map (s.buffer ++ ·)

/-- Reads bytes up to and including the first `stop`, or up to the end of the input. An interrupted
read is tried again; any other fault ends the attempt, and the bytes collected by then are lost. A
buffer without room reads nothing, which is the end of the input. -/
def readUntil (stop : UInt8) (s : Source) : Except Fault (List UInt8) × Source :=
  match _hb : s.buffer with
  | _ :: _ =>
    match _hw : s.buffer.dropWhile (· != stop) with
    | found :: rest =>
      (.ok (s.buffer.takeWhile (· != stop) ++ [found]), { s with buffer := rest })
    | [] =>
      let (result, later) := readUntil stop { s with buffer := [] }
      (result.map (s.buffer ++ ·), later)
  | [] =>
    match _hd : s.deliveries with
    | [] => (.ok [], s)
    | .fault f :: rest =>
      if f.interrupted then readUntil stop { s with deliveries := rest }
      else (.error f, { s with deliveries := rest })
    | .data [] :: rest => readUntil stop { s with deliveries := rest }
    | .data (b :: bs) :: rest =>
      if s.capacity = 0 then (.ok [], s)
      else
        readUntil stop
          { s with
            buffer := (b :: bs).take s.capacity
            deliveries := .data ((b :: bs).drop s.capacity) :: rest }
termination_by s.weight
decreasing_by
  · simp [weight, _hb]
  · simp [weight, _hd, Delivery.weight]
  · simp [weight, _hd, Delivery.weight]
  · simp [weight, _hb, _hd, Delivery.weight]; omega

/-- Reading leaves no more than there was, and less if it gave any byte or failed. -/
theorem weight_readUntil (stop : UInt8) (s : Source) :
    (s.readUntil stop).2.weight ≤ s.weight ∧
      ((s.readUntil stop).1 ≠ .ok [] → (s.readUntil stop).2.weight < s.weight) := by
  fun_induction readUntil stop s with
  | case1 s b bs hb found rest hw =>
    have h := congrArg List.length
      (List.takeWhile_append_dropWhile (l := s.buffer) (p := (· != stop)))
    simp only [hw, List.length_append, List.length_cons] at h
    simp only [weight]
    omega
  | case2 s b bs hb hw result later hr ih =>
    have h : ({ s with buffer := [] } : Source).weight < s.weight := by simp [weight, hb]
    have hlater : later.weight < s.weight := by
      rw [hr] at ih
      exact Nat.lt_of_le_of_lt ih.1 h
    exact ⟨Nat.le_of_lt hlater, fun _ => hlater⟩
  | case3 s hb hd => simp
  | case4 s hb f rest hd hf ih =>
    have h : ({ s with deliveries := rest } : Source).weight < s.weight := by
      simp [weight, hd, Delivery.weight]
    exact ⟨by omega, fun _ => by omega⟩
  | case5 s hb f rest hd hf => simp [weight, hd, Delivery.weight]
  | case6 s hb rest hd ih =>
    have h : ({ s with deliveries := rest } : Source).weight < s.weight := by
      simp [weight, hd, Delivery.weight]
    exact ⟨by omega, fun _ => by omega⟩
  | case7 s hb b bs rest hd hc => simp
  | case8 s hb b bs rest hd hc ih =>
    have h : ({ s with
        buffer := (b :: bs).take s.capacity
        deliveries := .data ((b :: bs).drop s.capacity) :: rest } : Source).weight < s.weight := by
      simp [weight, hb, hd, Delivery.weight]; omega
    exact ⟨by omega, fun _ => by omega⟩

end Source

end HotFrames

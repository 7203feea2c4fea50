/-!
# UTF-8

A decoder that reads one byte at a time. Each character of the text gives `some` character, and
each longest stretch of bytes that begins a character but cannot go on to one (or the single byte
that cannot begin one) gives `none`. The second byte of a sequence has a range of its own for some
first bytes, which is what shuts out overlong forms, surrogates and values above `10FFFF`.

`decode?` accepts exactly the texts without a bad stretch; `decodeLossy` puts the replacement
character for each.
-/

namespace HotFrames.Utf8

/-- What the decoder remembers between two bytes. -/
inductive State
  /-- between two characters -/
  | start
  /-- inside a character: the continuation bytes still to come, the range of the next one, and
  the value of the bits read so far -/
  | inside (left : Nat) (low high : UInt8) (bits : Nat)
  deriving DecidableEq, Repr

/-- The end of the input, or of a sequence that does not go on, in a state. -/
def flush : State → List (Option Char)
  | .start => []
  | .inside .. => [none]

/-- A byte between two characters. -/
def begin (b : UInt8) : List (Option Char) × State :=
  if b < 0x80 then ([some (Char.ofNat b.toNat)], .start)
  else if b < 0xC2 then ([none], .start)
  else if b < 0xE0 then ([], .inside 1 0x80 0xBF (b.toNat - 0xC0))
  else if b < 0xF0 then
    let low := if b = 0xE0 then 0xA0 else 0x80
    let high := if b = 0xED then 0x9F else 0xBF
    ([], .inside 2 low high (b.toNat - 0xE0))
  else if b < 0xF5 then
    let low := if b = 0xF0 then 0x90 else 0x80
    let high := if b = 0xF4 then 0x8F else 0xBF
    ([], .inside 3 low high (b.toNat - 0xF0))
  else ([none], .start)

/-- One byte: what it completes, and the state after it. -/
def feed : State → UInt8 → List (Option Char) × State
  | .start, b => begin b
  | .inside left low high bits, b =>
    if low ≤ b ∧ b ≤ high then
      let bits := bits * 64 + (b.toNat - 0x80)
      if left ≤ 1 then ([some (Char.ofNat bits)], .start)
      else ([], .inside (left - 1) 0x80 0xBF bits)
    else
      let next := begin b
      (none :: next.1, next.2)

/-- The characters and bad stretches of a byte string, read from a state. -/
def scan : State → List UInt8 → List (Option Char)
  | s, [] => flush s
  | s, b :: bs => (feed s b).1 ++ scan (feed s b).2 bs

/-- The text with U+FFFD for each bad stretch. -/
def decodeLossy (bs : List UInt8) : List Char :=
  (scan .start bs).map (·.getD '\uFFFD')

/-- The text of a byte string without a bad stretch. -/
def decode? (bs : List UInt8) : Option (List Char) :=
  let cs := scan .start bs
  if cs.all Option.isSome then some cs.reduceOption else none

/-- The bytes of a text. -/
def encode (cs : List Char) : List UInt8 := cs.flatMap String.utf8EncodeChar

@[simp] theorem encode_nil : encode [] = [] := rfl

@[simp] theorem encode_append (s t : List Char) : encode (s ++ t) = encode s ++ encode t := by
  simp [encode]

end HotFrames.Utf8

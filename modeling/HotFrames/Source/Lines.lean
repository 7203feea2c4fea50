import HotFrames.Source
import HotFrames.Text.Utf8

/-!
# The lines of a source

A line ends at `\n`, at `\r\n` or at a bare `\r`, and is given without its terminator. The source
is read in chunks that end at `\n`: the terminator is taken off the chunk, and each carriage return
left inside it ends a line of its own. Every line is decoded by itself, with a replacement character
for each bad stretch of bytes. A fault is given in place of the chunk it struck, and reading goes on
after it.
-/

namespace HotFrames

namespace Source

/-- Line feed. -/
def lf : UInt8 := 0x0A

/-- Carriage return. -/
def cr : UInt8 := 0x0D

/-- A chunk without the one terminator at its end, which is `\n`, `\r\n` or `\r`. -/
def dropTerminator (chunk : List UInt8) : List UInt8 :=
  if chunk.getLast? = some lf then
    let body := chunk.dropLast
    if body.getLast? = some cr then body.dropLast else body
  else if chunk.getLast? = some cr then chunk.dropLast
  else chunk

/-- The lines of a chunk that was read up to a line feed or the end of the input. -/
def chunkLines (chunk : List UInt8) : List (List UInt8) := (dropTerminator chunk).splitOn cr

/-- The text of a line. -/
def lineText (line : List UInt8) : String := String.ofList (Utf8.decodeLossy line)

/-- The lines of a source in order, with each fault in its place. -/
def lines (s : Source) : List (Except Fault String) :=
  match _h : s.readUntil lf with
  | (.ok [], _) => []
  | (.ok (b :: bs), later) =>
    (chunkLines (b :: bs)).map (fun line => .ok (lineText line)) ++ later.lines
  | (.error f, later) => .error f :: later.lines
termination_by s.weight
decreasing_by
  · have := (weight_readUntil lf s).2; simp_all
  · have := (weight_readUntil lf s).2; simp_all

end Source

end HotFrames

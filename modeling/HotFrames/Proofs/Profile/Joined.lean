import HotFrames.Proofs.Profile.Lines

/-!
# Two inputs one behind the other

An input that does not stop inside a line can be read by itself, and so can what follows it: the
profile of both together is the sum of the two profiles (`Profile.consume_append`).  The stacks of
both are the stacks of the one and behind them those of the other, and every table of the sum is
made from the two tables (`Profile.Tallies.val_get_append`, `Profile.Tallies.frames_append`).  Only
the number of lines can differ, by the empty line that a line feed makes where the return in front
of it was cut off.
-/

namespace HotFrames

theorem Stack.ofLines_append (lines more : List String) :
    Stack.ofLines (lines ++ more) = Stack.ofLines lines ++ Stack.ofLines more :=
  List.filterMap_append

namespace Source

/-- The empty line in front of the second input, if a `\r\n` is torn between the two. -/
def tornLine (a b : List UInt8) : List String :=
  if a.getLast? = some cr ∧ b.head? = some lf then [""] else []

/-- The lines of two inputs are those of the first and those of the second without a torn one. -/
theorem exists_lines_of_append {a b : List UInt8} {source sourceA sourceB : Source}
    (hend : Newline.Ended lf cr a) (hboth : source.Delivers (a ++ b)) (ha : sourceA.Delivers a)
    (hb : sourceB.Delivers b) :
    ∃ first second : List String,
      source.lines = (first ++ second).map .ok ∧ sourceA.lines = first.map .ok ∧
        sourceB.lines = (tornLine a b ++ second).map .ok := by
  refine ⟨(Newline.lines lf cr a).map lineText,
    (Newline.lines lf cr (Newline.leftBehind lf cr a b)).map lineText, ?_, ha.lines_eq, ?_⟩
  · rw [hboth.lines_eq, Newline.lines_append (by decide) hend, List.map_append]
  · have htorn : tornLine a b =
        (if a.getLast? = some cr ∧ b.head? = some lf then [[]] else []).map lineText := by
      unfold tornLine
      split_ifs <;> rfl
    rw [hb.lines_eq, Newline.lines_eq_append_leftBehind (by decide) a b, List.map_append, htorn]

end Source

namespace Profile

namespace Tallies

variable {p q r : Profile} {ss more : List Stack}

theorem val_get_append (hr : Tallies r (ss ++ more)) (hp : Tallies p ss) (hq : Tallies q more)
    (scope : Scope) (frame : String) :
    ((r.table scope).get frame).val =
      ((p.table scope).get frame).val + ((q.table scope).get frame).val := by
  rw [hr.val_get, hp.val_get, hq.val_get, Scope.samples, List.filter_append, Stack.sum_append]
  rfl

theorem frames_append (hr : Tallies r (ss ++ more)) (hp : Tallies p ss) (hq : Tallies q more)
    (scope : Scope) :
    (r.table scope).frames = (p.table scope).frames ++
      (q.table scope).frames.filter fun frame => frame ∉ (p.table scope).frames := by
  rw [hr.frames, hp.frames, hq.frames, List.filterMap_append, FrameTable.eraseDups_append]
  simp only [List.mem_eraseDups]

end Tallies

open Source (lf cr lineText)

/-- **Reading two inputs one behind the other adds up what reading each of them gives**, if the
first does not stop inside a line.  Both together are read to the end just if all counts together
are a count, and then so is each of them.  Every number is the sum of the two, and a table lists the
frames of the first and behind them the new ones of the second, except that a `\r\n` which is torn
between the two ends only one line. -/
theorem consume_append {a b : List UInt8} {source sourceA sourceB : Source}
    (hend : a = [] ∨ a.getLast? = some lf ∨ a.getLast? = some cr)
    (hboth : source.Delivers (a ++ b)) (ha : sourceA.Delivers a) (hb : sourceB.Delivers b) :
    let read := empty.consume source.lines
    let readA := empty.consume sourceA.lines
    let readB := empty.consume sourceB.lines
    (read.1 = .ok () ↔ Stack.sum (Stack.ofItems sourceA.lines) +
      Stack.sum (Stack.ofItems sourceB.lines) ≤ Samples.bound - 1) ∧
    (read.1 = .ok () →
      (readA.1 = .ok () ∧ readB.1 = .ok ()) ∧
      read.2.total.val = readA.2.total.val + readB.2.total.val ∧
      read.2.parsed = readA.2.parsed + readB.2.parsed ∧
      read.2.skipped = readA.2.skipped + readB.2.skipped ∧
      (∀ scope,
        (∀ frame, ((read.2.table scope).get frame).val =
          ((readA.2.table scope).get frame).val + ((readB.2.table scope).get frame).val) ∧
        (read.2.table scope).frames = (readA.2.table scope).frames ++
          (readB.2.table scope).frames.filter fun frame =>
            frame ∉ (readA.2.table scope).frames) ∧
      read.2.linesRead + (if a.getLast? = some cr ∧ b.head? = some lf then 1 else 0) =
        readA.2.linesRead + readB.2.linesRead) := by
  obtain ⟨first, second, hlines, hlinesA, hlinesB⟩ :=
    Source.exists_lines_of_append hend hboth ha hb
  -- A torn line is blank: it holds no stack and is not malformed.
  have htorn : Stack.ofLines (Source.tornLine a b ++ second) = Stack.ofLines second ∧
      (Source.tornLine a b ++ second).countP Stack.isMalformed =
        second.countP Stack.isMalformed := by
    unfold Source.tornLine
    split_ifs <;> exact ⟨rfl, rfl⟩
  have hsum : Stack.sum (Stack.ofLines (first ++ second)) =
      Stack.sum (Stack.ofLines first) + Stack.sum (Stack.ofLines second) := by
    rw [Stack.ofLines_append, Stack.sum_append]
  rw [hlines, hlinesA, hlinesB]
  intro read readA readB
  refine ⟨?_, fun hok => ?_⟩
  · rw [consume_lines_eq_ok_iff, hsum, Stack.ofItems_lines, Stack.ofItems_lines, htorn.1]
    exact (Nat.le_sub_one_iff_lt (by decide)).symm
  have hlt : Stack.sum (Stack.ofLines (first ++ second)) < Samples.bound :=
    consume_lines_eq_ok_iff.1 hok
  have hltA : Stack.sum (Stack.ofLines first) < Samples.bound := by omega
  have hltB : Stack.sum (Stack.ofLines (Source.tornLine a b ++ second)) < Samples.bound := by
    rw [htorn.1]
    omega
  have hcovers : read.2.Covers (first ++ second) := covers_consume hlt
  have hcoversA : readA.2.Covers first := covers_consume hltA
  have hcoversB : readB.2.Covers (Source.tornLine a b ++ second) := covers_consume hltB
  have h : Tallies read.2 (Stack.ofLines first ++ Stack.ofLines second) :=
    Stack.ofLines_append first second ▸ hcovers.toTallies
  have hA : Tallies readA.2 (Stack.ofLines first) := hcoversA.toTallies
  have hB : Tallies readB.2 (Stack.ofLines second) := htorn.1 ▸ hcoversB.toTallies
  refine ⟨⟨consume_lines_eq_ok_iff.2 hltA, consume_lines_eq_ok_iff.2 hltB⟩, ?_, ?_, ?_,
    fun scope => ⟨h.val_get_append hA hB scope, h.frames_append hA hB scope⟩, ?_⟩
  · rw [h.total, hA.total, hB.total, Stack.sum_append]
  · rw [h.parsed, hA.parsed, hB.parsed, List.length_append]
  · rw [hcovers.skipped, hcoversA.skipped, hcoversB.skipped, htorn.2, List.countP_append]
  · rw [hcovers.linesRead, hcoversA.linesRead, hcoversB.linesRead, Source.tornLine]
    split_ifs <;> simp only [List.length_append, List.length_cons, List.length_nil] <;> omega

/-- A torn `\r\n`, behind which the second input goes on with a frame of the first and a new one. -/
theorem consume_append_torn_terminator :
    let a := Utf8.encode "a;x 1\r".toList
    let b := Utf8.encode "\nb;y 2\nc;x 3".toList
    let read := empty.consume (Source.ofBytes (a ++ b)).lines
    let readA := empty.consume (Source.ofBytes a).lines
    let readB := empty.consume (Source.ofBytes b).lines
    (a.getLast? = some cr ∧ b.head? = some lf) ∧ (Source.ofBytes (a ++ b)).Delivers (a ++ b) ∧
      (Source.ofBytes a).Delivers a ∧ (Source.ofBytes b).Delivers b ∧
      read.1 = .ok () ∧ read.2.linesRead + 1 = readA.2.linesRead + readB.2.linesRead ∧
      read.2.leaf.frames = readA.2.leaf.frames ++
        readB.2.leaf.frames.filter fun frame => frame ∉ readA.2.leaf.frames := by
  intro a b read readA readB
  have hcut : a.getLast? = some cr ∧ b.head? = some lf := by decide
  have hboth := Source.delivers_ofBytes (a ++ b)
  have ha := Source.delivers_ofBytes a
  have hb := Source.delivers_ofBytes b
  obtain ⟨hiff, hsums⟩ := consume_append (.inr (.inr hcut.1)) hboth ha hb
  have hok : read.1 = .ok () := hiff.2 (by decide +kernel)
  obtain ⟨-, -, -, -, htables, hread⟩ := hsums hok
  rw [if_pos hcut] at hread
  exact ⟨hcut, hboth, ha, hb, hok, hread, (htables .leaf).2⟩

end Profile

end HotFrames

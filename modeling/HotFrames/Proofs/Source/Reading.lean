import HotFrames.Proofs.Text.Newline
import HotFrames.Proofs.Text.Utf8
import HotFrames.Source.Lines

/-!
# Reading the lines of a source

What the reads of a source give, byte by byte, does not depend on how the bytes are cut into
deliveries, nor on the size of the buffer, nor on interrupted reads (`Source.events`).  Reading up
to a line feed takes events off the front (`Source.readUntil_events`), and a chunk read so holds
whole lines (`Source.lines_append_chunk`).  Hence the lines of an undisturbed source are those of
the one pass of `Newline.lines` over its bytes (`Source.lines_of_events`).
-/

namespace HotFrames

/-! ## Events -/

namespace Delivery

/-- The bytes of a delivery. -/
def bytes : Delivery → List UInt8
  | data bytes => bytes
  | fault _ => []

/-- What a reader that tries interrupted reads again makes of a delivery: its bytes one by one, or
its fault. -/
def events : Delivery → List (Except Fault UInt8)
  | data bytes => bytes.map .ok
  | fault f => if f.interrupted then [] else [.error f]

end Delivery

namespace Source

/-- The bytes and faults still to come. -/
def events (s : Source) : List (Except Fault UInt8) :=
  s.buffer.map .ok ++ s.deliveries.flatMap Delivery.events

/-- The events up to a byte, to a fault or to the end: their bytes or the fault, and the events
behind. -/
def takeUntil (stop : UInt8) :
    List (Except Fault UInt8) → Except Fault (List UInt8) × List (Except Fault UInt8)
  | [] => (.ok [], [])
  | .error f :: rest => (.error f, rest)
  | .ok b :: rest =>
    if b = stop then (.ok [b], rest)
    else ((takeUntil stop rest).1.map (b :: ·), (takeUntil stop rest).2)

section TakeUntil

variable {stop : UInt8}

theorem takeUntil_append {bytes : List UInt8} (h : stop ∉ bytes)
    (rest : List (Except Fault UInt8)) :
    takeUntil stop (bytes.map .ok ++ rest) =
      ((takeUntil stop rest).1.map (bytes ++ ·), (takeUntil stop rest).2) := by
  induction bytes with
  | nil =>
    rw [List.map_nil, List.nil_append]
    rcases takeUntil stop rest with ⟨_ | _, _⟩ <;> rfl
  | cons b bytes ih =>
    obtain ⟨hb, hbytes⟩ := List.ne_and_not_mem_of_not_mem_cons h
    simp only [List.map_cons, List.cons_append, takeUntil, if_neg hb.symm, ih hbytes]
    cases (takeUntil stop rest).1 <;> rfl

theorem takeUntil_append_stop {bytes : List UInt8} (h : stop ∉ bytes)
    (rest : List (Except Fault UInt8)) :
    takeUntil stop (bytes.map .ok ++ .ok stop :: rest) = (.ok (bytes ++ [stop]), rest) := by
  rw [takeUntil_append h, takeUntil, if_pos rfl]
  rfl

theorem takeUntil_of_not_mem {bytes : List UInt8} (h : stop ∉ bytes) :
    takeUntil stop (bytes.map .ok) = (.ok bytes, []) := by
  have := takeUntil_append h []
  rw [List.append_nil, takeUntil] at this
  simpa [Except.map] using this

end TakeUntil

/-- Reading up to a byte is taking events up to that byte, and the source goes on with the events
behind. -/
theorem readUntil_events (stop : UInt8) (s : Source) (h : 0 < s.capacity) :
    (s.readUntil stop).1 = (takeUntil stop s.events).1 ∧
      (s.readUntil stop).2.events = (takeUntil stop s.events).2 ∧
      (s.readUntil stop).2.capacity = s.capacity := by
  -- Only two cases take events: the stop in the buffer (`case1`) and a fault (`case5`).  A buffer
  -- without the stop goes to the front of what later reads give (`case2`); the other reads move bytes
  -- between the deliveries and the buffer, which leaves the events as they are.
  fun_induction readUntil stop s with
  | case1 s b bs hb found rest hw =>
    have hfound : found = stop := by
      have := List.head?_dropWhile_not (· != stop) s.buffer
      rw [hw] at this
      simpa using this
    have hsplit : s.buffer = s.buffer.takeWhile (· != stop) ++ stop :: rest := by
      rw [hfound] at hw
      rw [← hw, List.takeWhile_append_dropWhile]
    have hno : stop ∉ s.buffer.takeWhile (· != stop) := fun hmem => by
      simpa using List.mem_takeWhile_imp hmem
    have hev : s.events = (s.buffer.takeWhile (· != stop)).map .ok ++
        .ok stop :: ({ s with buffer := rest } : Source).events := by
      conv_lhs => rw [events, hsplit]
      simp [events]
    rw [hev, takeUntil_append_stop hno, hfound]
    exact ⟨rfl, rfl, rfl⟩
  | case2 s b bs hb hw result later hr ih =>
    have hno : stop ∉ s.buffer := fun hmem => by
      simpa using List.dropWhile_eq_nil_iff.1 hw stop hmem
    have hev : s.events = s.buffer.map .ok ++ ({ s with buffer := [] } : Source).events := by
      simp [events]
    obtain ⟨h1, h2, h3⟩ := ih h
    rw [hr] at h1 h2 h3
    rw [hev, takeUntil_append hno, ← h1]
    exact ⟨rfl, h2, h3⟩
  | case3 s hb hd => simp [events, hb, hd, takeUntil]
  | case4 s hb f rest hd hf ih =>
    have hev : s.events = ({ s with deliveries := rest } : Source).events := by
      simp [events, hb, hd, Delivery.events, hf]
    rw [hev]
    exact ih h
  | case5 s hb f rest hd hf => simp [events, hb, hd, Delivery.events, hf, takeUntil]
  | case6 s hb rest hd ih =>
    have hev : s.events = ({ s with deliveries := rest } : Source).events := by
      simp [events, hb, hd, Delivery.events]
    rw [hev]
    exact ih h
  | case7 s hb b bs rest hd hc => omega
  | case8 s hb b bs rest hd hc ih =>
    have hev : s.events = ({ s with
        buffer := (b :: bs).take s.capacity
        deliveries := .data ((b :: bs).drop s.capacity) :: rest } : Source).events := by
      simp only [events, hb, hd, List.map_nil, List.nil_append, List.flatMap_cons, Delivery.events,
        ← List.append_assoc, ← List.map_append, List.take_append_drop]
    rw [hev]
    exact ih h

/-! ## Chunks -/

/-- A body of a line without the return at its end. -/
def dropReturn (body : List UInt8) : List UInt8 :=
  if body.getLast? = some cr then body.dropLast else body

theorem dropReturn_cons_cons (b c : UInt8) (body : List UInt8) :
    dropReturn (b :: c :: body) = b :: dropReturn (c :: body) := by
  simp only [dropReturn, List.getLast?_cons_cons, List.dropLast_cons_cons]
  split <;> rfl

theorem chunkLines_append_lf (body : List UInt8) :
    chunkLines (body ++ [lf]) = (dropReturn body).splitOn cr := by
  simp [chunkLines, dropTerminator, dropReturn]

theorem chunkLines_of_not_mem {chunk : List UInt8} (h : lf ∉ chunk) :
    chunkLines chunk = (dropReturn chunk).splitOn cr := by
  have hlast : chunk.getLast? ≠ some lf := fun he => h (List.mem_of_getLast? he)
  simp [chunkLines, dropTerminator, dropReturn, hlast]

/-- The lines of a body without line feeds, in front of something that ends its last line: be it a
line feed, be it the end of the input. -/
theorem lines_append_of_end {ending : List UInt8} {more : List (List UInt8)}
    (hreturn : Newline.lines lf cr (cr :: ending) = [] :: more)
    (hother : ∀ b, b ≠ lf → b ≠ cr → Newline.lines lf cr (b :: ending) = [b] :: more)
    {body : List UInt8} (h : lf ∉ body) (hne : body ≠ []) :
    Newline.lines lf cr (body ++ ending) = (dropReturn body).splitOn cr ++ more := by
  induction body with
  | nil => exact absurd rfl hne
  | cons b body ih =>
    obtain ⟨hb, hbody⟩ := List.ne_and_not_mem_of_not_mem_cons h
    -- The last letter meets the ending; a return before it is bare, since the body has no line feed.
    cases body with
    | nil =>
      by_cases hcr : b = cr
      · subst hcr
        simpa [dropReturn] using hreturn
      · simpa [dropReturn, hcr, List.splitOn_cons_eq_if_modifyHead] using hother b hb.symm hcr
    | cons c body =>
      have ih := ih hbody (List.cons_ne_nil c body)
      rw [dropReturn_cons_cons, List.splitOn_cons_eq_if_modifyHead, List.cons_append]
      by_cases hcr : b = cr
      · have hc : c ≠ lf := fun he => hbody (he ▸ List.mem_cons_self)
        subst hcr
        rw [Newline.lines_cr (by simpa using hc), ih]
        simp
      · obtain ⟨line, rest, hs⟩ := List.exists_cons_of_ne_nil
          (List.splitOn_ne_nil cr (dropReturn (c :: body)))
        rw [Newline.lines_cons_of_ne hb.symm hcr, ih, hs]
        simp [hcr, Newline.extend]

/-- A chunk that ends in a line feed holds whole lines. -/
theorem lines_append_chunk {body : List UInt8} (h : lf ∉ body) (rest : List UInt8) :
    Newline.lines lf cr (body ++ lf :: rest) =
      chunkLines (body ++ [lf]) ++ Newline.lines lf cr rest := by
  rw [chunkLines_append_lf]
  by_cases hne : body = []
  · subst hne
    rw [List.nil_append, Newline.lines_lf (by decide)]
    rfl
  · refine lines_append_of_end (Newline.lines_cr_lf rest) (fun b hlf hcr => ?_) h hne
    rw [Newline.lines_cons_of_ne hlf hcr, Newline.lines_lf (by decide), Newline.extend]

/-- A chunk that ends with the input holds whole lines too. -/
theorem lines_chunk {chunk : List UInt8} (h : lf ∉ chunk) (hne : chunk ≠ []) :
    Newline.lines lf cr chunk = chunkLines chunk := by
  have hend : Newline.lines lf cr (chunk ++ []) = (dropReturn chunk).splitOn cr ++ [] := by
    refine lines_append_of_end rfl (fun b hlf hcr => ?_) h hne
    exact Newline.lines_of_unbroken (by simp [Newline.Unbroken, hlf.symm, hcr.symm])
      (List.cons_ne_nil b [])
  rwa [List.append_nil, List.append_nil, ← chunkLines_of_not_mem h] at hend

/-! ## Lines -/

theorem lines_of_end {s later : Source} (h : s.readUntil lf = (.ok [], later)) : s.lines = [] := by
  rw [lines]
  split <;> simp_all

theorem lines_of_chunk {s later : Source} {chunk : List UInt8}
    (h : s.readUntil lf = (.ok chunk, later)) (hne : chunk ≠ []) :
    s.lines = ((chunkLines chunk).map fun line => .ok (lineText line)) ++ later.lines := by
  rw [lines]
  split <;> simp_all

/-- The lines of a source whose reads give bytes only. -/
theorem lines_of_events {s : Source} (h : 0 < s.capacity) {bytes : List UInt8}
    (hev : s.events = bytes.map .ok) :
    s.lines = (Newline.lines lf cr bytes).map fun line => .ok (lineText line) := by
  -- Each chunk that is read leaves fewer bytes, and the source behind it again gives bytes only.
  induction hn : bytes.length using Nat.strongRecOn generalizing s bytes with
  | _ n ih =>
    obtain ⟨h1, h2, h3⟩ := readUntil_events lf s h
    rw [hev] at h1 h2
    by_cases hlf : lf ∈ bytes
    · obtain ⟨body, rest, rfl, hbody⟩ := List.eq_append_cons_of_mem hlf
      rw [List.map_append, List.map_cons, takeUntil_append_stop hbody] at h1 h2
      rw [lines_of_chunk (Prod.ext h1 rfl) (by simp), lines_append_chunk hbody, List.map_append,
        ih rest.length (by simp [← hn]; omega) (h3 ▸ h) h2 rfl]
    · rw [takeUntil_of_not_mem hlf] at h1 h2
      by_cases hne : bytes = []
      · subst hne
        rw [lines_of_end (Prod.ext h1 rfl)]
        rfl
      · have hlater : (s.readUntil lf).2.lines =
            (Newline.lines lf cr []).map fun line => .ok (lineText line) :=
          ih 0 (hn ▸ List.length_pos_iff.2 hne) (h3 ▸ h) h2 rfl
        rw [Newline.lines, List.map_nil] at hlater
        rw [lines_of_chunk (Prod.ext h1 rfl) hne, lines_chunk hlf hne, hlater, List.append_nil]

/-- The lines of a content that is read from its first byte. -/
theorem lines_ofBytes (content : List UInt8) :
    (ofBytes content).lines = (Newline.lines lf cr content).map fun line => .ok (lineText line) := by
  have hevents : (ofBytes content).events = content.map .ok := by
    simp [events, ofBytes, Delivery.events]
  exact lines_of_events (Nat.zero_lt_succ _) hevents

end Source

end HotFrames

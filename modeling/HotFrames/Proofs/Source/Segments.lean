import HotFrames.Proofs.Source.Faults

/-!
# Lines between faults

Faults cut what a source delivers into segments (`Source.Segments.Cuts`).  Reading goes on behind a
fault as if it began there, so the lines of a source are those of its segments one after the other
(`Source.lines_of_broken`): a segment that a fault ends gives its lines up to the last line feed, and
the last segment gives all of its lines (`Source.lines_of_segments`).  The bytes up to the last line
feed are the longest beginning of a segment that does not stop inside a chunk
(`Source.prefix_upToFeed`), and they hold all of its lines but those behind them
(`Source.textLines_eq_append_behindFeed`).
-/

namespace HotFrames

namespace Source

/-! ## The bytes up to the last line feed -/

section UpToFeed

variable {bytes front : List UInt8}

/-- Whether some bytes stop where a chunk does. -/
def IsFed (bytes : List UInt8) : Prop := bytes = [] ∨ bytes.getLast? = some lf

theorem upToFeed_append_behindFeed (bytes : List UInt8) :
    upToFeed bytes ++ behindFeed bytes = bytes := List.rdropWhile_append_rtakeWhile

theorem isFed_upToFeed (bytes : List UInt8) : IsFed (upToFeed bytes) :=
  upToFeed_eq_nil_or_getLast? bytes

/-- No beginning that stops where a chunk does is longer. -/
theorem prefix_upToFeed (hfront : front <+: bytes) (hfed : IsFed front) :
    front <+: upToFeed bytes := by
  rcases hfed with rfl | hlast
  · exact List.nil_prefix
  · obtain ⟨body, rfl⟩ := List.getLast?_eq_some_iff.1 hlast
    obtain ⟨tail, rfl⟩ := hfront
    rw [List.append_assoc, List.singleton_append, upToFeed_append]
    exact ⟨upToFeed tail, by rw [List.append_assoc, List.singleton_append]⟩

/-- Behind the last line feed lines begin anew. -/
theorem textLines_eq_append_behindFeed (bytes : List UInt8) :
    textLines bytes = textLines (upToFeed bytes) ++ textLines (behindFeed bytes) := by
  have hlast := upToFeed_eq_nil_or_getLast? bytes
  have hend : Newline.Ended lf cr (upToFeed bytes) := hlast.imp_right .inl
  have hleft : Newline.leftBehind lf cr (upToFeed bytes) (behindFeed bytes) = behindFeed bytes := by
    rw [Newline.leftBehind, if_neg]
    rintro ⟨-, hhead⟩
    exact not_mem_behindFeed bytes (List.mem_of_head? hhead)
  conv_lhs => rw [← upToFeed_append_behindFeed bytes, textLines, Newline.lines_append (by decide) hend,
    hleft, List.map_append]
  rfl

end UpToFeed

/-! ## Segments -/

/-- Deliveries in stretches, all but the last one with a fault at the end. -/
structure Segments where
  /-- What is delivered in front of each fault, with the fault. -/
  broken : List (List Delivery × Fault)
  /-- What is delivered behind the last fault. -/
  last : List Delivery

/-- Whether reads are at most interrupted. -/
def Undisturbed (pieces : List Delivery) : Prop := ∀ f, .fault f ∈ pieces → f.interrupted = true

/-- Whether faults cut some deliveries into these segments. -/
structure Segments.Cuts (s : Segments) (deliveries : List Delivery) : Prop where
  eq_deliveries : (s.broken.flatMap fun b => b.1 ++ [.fault b.2]) ++ s.last = deliveries
  broken : ∀ b ∈ s.broken, Undisturbed b.1 ∧ b.2.interrupted = false
  last : Undisturbed s.last

theorem Undisturbed.cons {d : Delivery} {pieces : List Delivery}
    (hd : ∀ f, d = .fault f → f.interrupted = true) (h : Undisturbed pieces) :
    Undisturbed (d :: pieces) := by
  intro f hf
  rcases List.mem_cons.1 hf with rfl | hmem
  · exact hd f rfl
  · exact h f hmem

/-- A delivery that is no fault goes to the first segment. -/
theorem Segments.Cuts.exists_cons {s : Segments} {deliveries : List Delivery} {d : Delivery}
    (h : s.Cuts deliveries) (hd : ∀ f, d = .fault f → f.interrupted = true) :
    ∃ s' : Segments, s'.Cuts (d :: deliveries) := by
  obtain ⟨broken, last⟩ := s
  cases broken with
  | nil =>
    exact ⟨⟨[], d :: last⟩, congrArg (d :: ·) h.eq_deliveries, fun b hb => (nomatch hb),
      h.last.cons hd⟩
  | cons b more =>
    obtain ⟨hb, hmore⟩ := List.forall_mem_cons.1 h.broken
    exact ⟨⟨(d :: b.1, b.2) :: more, last⟩, congrArg (d :: ·) h.eq_deliveries,
      List.forall_mem_cons.2 ⟨⟨hb.1.cons hd, hb.2⟩, hmore⟩, h.last⟩

/-- Any deliveries are cut somehow. -/
theorem exists_cuts (deliveries : List Delivery) : ∃ s : Segments, s.Cuts deliveries := by
  induction deliveries with
  | nil => exact ⟨⟨[], []⟩, rfl, fun b hb => (nomatch hb), fun f hf => (nomatch hf)⟩
  | cons d rest ih =>
    obtain ⟨s, h⟩ := ih
    cases d with
    | data bytes => exact h.exists_cons fun f hf => (nomatch hf)
    | fault f =>
      by_cases hf : f.interrupted = true
      · exact h.exists_cons fun g hg => by
          cases hg
          exact hf
      · rw [Bool.not_eq_true] at hf
        refine ⟨⟨([], f) :: s.broken, s.last⟩, congrArg (Delivery.fault f :: ·) h.eq_deliveries, ?_,
          h.last⟩
        exact List.forall_mem_cons.2 ⟨⟨fun g hg => (nomatch hg), hf⟩, h.broken⟩

/-! ## Lines -/

/-- What is delivered in front of faults and behind the last one, read up to the end. -/
theorem lines_of_broken {s : Source} (h : 0 < s.capacity) {broken : List (List UInt8 × Fault)}
    {last : List UInt8}
    (hev : s.events = (broken.flatMap fun b => b.1.map .ok ++ [.error b.2]) ++ last.map .ok) :
    s.lines = (broken.flatMap fun b => (textLines (upToFeed b.1)).map .ok ++ [.error b.2]) ++
      (textLines last).map .ok := by
  -- Behind the first fault there is a source with one fault less.
  induction broken generalizing s with
  | nil =>
    rw [lines_of_events h hev, textLines, List.map_map]
    rfl
  | cons b broken ih =>
    rw [List.flatMap_cons, List.append_assoc, List.append_assoc, List.singleton_append] at hev
    obtain ⟨later, hcapacity, hevents, hlines⟩ := exists_source_behind_fault h hev
    rw [hlines, ih (hcapacity ▸ h) hevents, List.flatMap_cons, List.append_assoc, List.append_assoc,
      List.singleton_append]

theorem events_of_undisturbed {pieces : List Delivery} (h : Undisturbed pieces) :
    pieces.flatMap Delivery.events = (pieces.flatMap Delivery.bytes).map .ok := by
  have hevents := events_of_deliveries 0 h
  rwa [events, List.map_nil, List.nil_append] at hevents

/-- The events of a source are those of its segments. -/
theorem Segments.Cuts.events {s : Segments} {deliveries : List Delivery} (h : s.Cuts deliveries) :
    deliveries.flatMap Delivery.events =
      (s.broken.flatMap fun b => (b.1.flatMap Delivery.bytes).map .ok ++ [.error b.2]) ++
        (s.last.flatMap Delivery.bytes).map .ok := by
  rw [← h.eq_deliveries, List.flatMap_append, List.flatMap_assoc, events_of_undisturbed h.last]
  congr 1
  apply List.flatMap_congr
  intro b hb
  obtain ⟨hpieces, hfault⟩ := h.broken b hb
  rw [List.flatMap_append, events_of_undisturbed hpieces, List.flatMap_singleton, Delivery.events,
    if_neg (by rw [hfault]; exact Bool.false_ne_true)]

/-- The fault that was given in place of a line. -/
def fault? : Except Fault String → Option Fault
  | .ok _ => none
  | .error fault => some fault

theorem filterMap_fault?_texts (texts : List String) :
    (texts.map (.ok : String → Except Fault String)).filterMap fault? = [] := by
  simp [List.filterMap_map, Function.comp_def, fault?]

/-- **Each segment gives its lines by itself**, whatever the pieces in which the bytes are delivered
and the size of the buffer.  Any deliveries are cut into segments by their faults.  A segment that a
fault ends gives its lines up to the last line feed and then the fault, and the last segment gives all
of its lines; so the faults are given once each and in order.  The bytes up to the last line feed are
the longest beginning of a segment that is empty or ends in a line feed, and what is not given are the
lines behind it. -/
theorem lines_of_segments (deliveries : List Delivery) (capacity : ℕ) (hcap : 0 < capacity) :
    (∃ s : Segments, s.Cuts deliveries) ∧
    (∀ s : Segments, s.Cuts deliveries →
      let given := ({ deliveries, capacity } : Source).lines
      given =
        (s.broken.flatMap fun b =>
          (textLines (upToFeed (b.1.flatMap Delivery.bytes))).map .ok ++ [.error b.2]) ++
        (textLines (s.last.flatMap Delivery.bytes)).map .ok ∧
      given.filterMap fault? = s.broken.map Prod.snd) ∧
    ∀ bytes,
      (upToFeed bytes <+: bytes ∧ IsFed (upToFeed bytes) ∧
        ∀ front, front <+: bytes → IsFed front → front <+: upToFeed bytes) ∧
      textLines bytes = textLines (upToFeed bytes) ++ textLines (behindFeed bytes) ∧
      lf ∉ behindFeed bytes := by
  refine ⟨exists_cuts deliveries, fun s h => ?_, fun bytes => ⟨⟨?_, isFed_upToFeed bytes, ?_⟩,
    textLines_eq_append_behindFeed bytes, not_mem_behindFeed bytes⟩⟩
  · have hevents : ({ deliveries, capacity } : Source).events =
        ((s.broken.map fun b => (b.1.flatMap Delivery.bytes, b.2)).flatMap fun b =>
          b.1.map .ok ++ [.error b.2]) ++ (s.last.flatMap Delivery.bytes).map .ok := by
      rw [List.flatMap_map]
      exact h.events
    have hbroken := lines_of_broken hcap hevents
    rw [List.flatMap_map] at hbroken
    refine ⟨hbroken, ?_⟩
    simp only [hbroken, List.filterMap_append, List.filterMap_flatMap, filterMap_fault?_texts,
      List.nil_append, List.append_nil]
    exact List.map_eq_flatMap.symm
  · exact List.rdropWhile_prefix _ bytes
  · exact fun front => prefix_upToFeed

/-- Two faults one after the other behind a line that a bare return has ended, then a torn `\r\n`
with an interrupted read, a third fault inside a line, and a last line without terminator. -/
theorem lines_of_segments_three_faults :
    let fault (text : String) : Fault := ⟨text, false⟩
    let deliveries : List Delivery := [
      .data [0x61, 0x0A, 0x62, 0x0D, 0x63], .fault (fault "x"), .fault (fault "y"),
      .data [0x64, 0x0D], .fault ⟨"again", true⟩, .data [0x0A, 0x65], .fault (fault "z"),
      .data [0x66, 0x0D, 0x67]]
    0 < 2 ∧ ({ deliveries, capacity := 2 } : Source).lines =
      [.ok "a", .error (fault "x"), .error (fault "y"), .ok "d", .error (fault "z"), .ok "f",
        .ok "g"] := by
  intro fault deliveries
  let segments : Segments := {
    broken := [
      ([.data [0x61, 0x0A, 0x62, 0x0D, 0x63]], fault "x"),
      ([], fault "y"),
      ([.data [0x64, 0x0D], .fault ⟨"again", true⟩, .data [0x0A, 0x65]], fault "z")]
    last := [.data [0x66, 0x0D, 0x67]] }
  have hcuts : segments.Cuts deliveries :=
    { eq_deliveries := rfl
      broken := by simp [segments, Undisturbed, fault]
      last := by simp [segments, Undisturbed] }
  exact ⟨by decide, ((lines_of_segments deliveries 2 (by decide)).2.1 segments hcuts).1.trans
    (by decide +kernel)⟩

end Source

end HotFrames

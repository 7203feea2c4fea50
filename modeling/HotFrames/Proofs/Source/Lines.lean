import HotFrames.Proofs.Source.Reading

/-!
# Lines and their decoding

The lines of a source are the lines of its bytes, each decoded by itself, however the bytes arrive
(`Source.lines_eq_map_lineText`).  They are also the lines of the whole text decoded at once
(`Source.lines_eq_lines_decodeLossy`): a decoder is back at its start behind every terminator, so
decoding keeps terminators (`Source.keeps_decodeLossy`), and so does encoding
(`Source.keeps_encode`).
-/

namespace HotFrames

namespace Source

open Utf8

/-- Deliveries without a fault, interrupted reads apart, give the bytes of all of them. -/
theorem events_of_deliveries {deliveries : List Delivery} (capacity : ℕ)
    (hfaults : ∀ f, Delivery.fault f ∈ deliveries → f.interrupted) :
    ({ deliveries, capacity } : Source).events = (deliveries.flatMap Delivery.bytes).map .ok := by
  rw [events, List.map_nil, List.nil_append, List.map_flatMap]
  apply List.flatMap_congr
  intro d hd
  cases d with
  | data bytes => rfl
  | fault f => simp [Delivery.events, Delivery.bytes, hfaults f hd]

/-- Whether a source gives some bytes and nothing else, in whatever pieces they are delivered,
however large the buffer is and whatever reads are interrupted between them. -/
structure Delivers (s : Source) (bytes : List UInt8) : Prop where
  capacity_pos : 0 < s.capacity
  events : s.events = bytes.map .ok

theorem delivers_of_deliveries {deliveries : List Delivery} {capacity : ℕ} (hcap : 0 < capacity)
    (hfaults : ∀ f, Delivery.fault f ∈ deliveries → f.interrupted) :
    ({ deliveries, capacity } : Source).Delivers (deliveries.flatMap Delivery.bytes) :=
  ⟨hcap, events_of_deliveries capacity hfaults⟩

theorem delivers_ofBytes (content : List UInt8) : (ofBytes content).Delivers content := by
  have h : (ofBytes content).Delivers (content ++ []) :=
    delivers_of_deliveries (Nat.zero_lt_succ _) fun f hf => by simp at hf
  rwa [List.append_nil] at h

theorem Delivers.lines_eq {s : Source} {bytes : List UInt8} (h : s.Delivers bytes) :
    s.lines = ((Newline.lines lf cr bytes).map lineText).map .ok := by
  rw [lines_of_events h.capacity_pos h.events, List.map_map]
  rfl

/-- **The lines of a source are the lines of its bytes**, read in one pass and decoded one by one,
whatever the pieces in which the bytes are delivered, the size of the buffer and the number of
interrupted reads. -/
theorem lines_eq_map_lineText (deliveries : List Delivery) (capacity : ℕ) (hcap : 0 < capacity)
    (hfaults : ∀ f, Delivery.fault f ∈ deliveries → f.interrupted) :
    ({ deliveries, capacity } : Source).lines =
      (Newline.lines lf cr (deliveries.flatMap Delivery.bytes)).map fun line =>
        .ok (lineText line) :=
  lines_of_events hcap (events_of_deliveries capacity hfaults)

/-- A `\r\n` that two reads tear apart, with an interrupted read between them. -/
theorem lines_torn_terminator :
    let deliveries : List Delivery :=
      [.data [0x61, 0x0D], .fault ⟨"again", true⟩, .data [0x0A, 0x0D, 0x62, 0x0D]]
    0 < 2 ∧ (∀ f, Delivery.fault f ∈ deliveries → f.interrupted) ∧
      ({ deliveries, capacity := 2 } : Source).lines = [.ok "a", .ok "", .ok "b"] := by
  intro deliveries
  have hfaults : ∀ f, Delivery.fault f ∈ deliveries → f.interrupted := by simp [deliveries]
  exact ⟨by decide, hfaults, (lines_eq_map_lineText deliveries 2 (by decide) hfaults).trans
    (by decide)⟩

/-! ## Decoding before and after the cut -/

/-- Decoding keeps terminators. -/
theorem keeps_decodeLossy : Newline.Keeps lf cr '\n' '\r' decodeLossy where
  nil := rfl
  ne_nil := decodeLossy_ne_nil
  feed text rest := decodeLossy_append_ascii text (a := lf) (by decide) rest
  bare text rest := decodeLossy_append_ascii text (a := cr) (by decide) rest
  unbroken := by
    intro text ht
    have hbyte {c : Char} {a : UInt8} (hc : c.toNat < 0x80) (ha : a.toNat = c.toNat)
        (hno : a ∉ text) : c ∉ decodeLossy text := by
      intro hmem
      obtain ⟨b, hb, he⟩ := mem_of_mem_decodeLossy hmem hc
      exact hno (UInt8.toNat_inj.1 (he.trans ha.symm) ▸ hb)
    exact ⟨hbyte (by decide) rfl ht.1, hbyte (by decide) rfl ht.2⟩

/-- Encoding keeps terminators. -/
theorem keeps_encode : Newline.Keeps '\n' '\r' lf cr encode where
  nil := rfl
  ne_nil := by
    intro text hne he
    exact hne (by rw [← decodeLossy_encode text, he]; rfl)
  feed text rest := encode_append text ('\n' :: rest)
  bare text rest := encode_append text ('\r' :: rest)
  unbroken := by
    intro text ht
    have hchar {c : Char} {a : UInt8} (ha : a.toNat < 0x80) (hac : Char.ofNat a.toNat = c)
        (hno : c ∉ text) : a ∉ encode text := by
      intro hmem
      obtain ⟨before, after, hsplit⟩ := List.append_of_mem hmem
      apply hno
      rw [← decodeLossy_encode text, hsplit, decodeLossy_append_ascii before ha after, hac]
      exact List.mem_append_right _ List.mem_cons_self
    exact ⟨hchar (by decide) rfl ht.1, hchar (by decide) rfl ht.2⟩

/-- **Cutting the bytes and decoding each line is decoding everything and cutting the text.**  A
terminator stands in the decoded text wherever it stands in the bytes, whatever malformed sequence
is before or behind it.  The lines of a well-formed input are parts of it as they stand. -/
theorem lines_eq_lines_decodeLossy (deliveries : List Delivery) (capacity : ℕ) (hcap : 0 < capacity)
    (hfaults : ∀ f, Delivery.fault f ∈ deliveries → f.interrupted) :
    let bytes := deliveries.flatMap Delivery.bytes
    let given := ({ deliveries, capacity } : Source).lines
    given = (Newline.lines '\n' '\r' (decodeLossy bytes)).map (fun line => .ok (.ofList line)) ∧
      (∀ before after,
        decodeLossy (before ++ lf :: after) = decodeLossy before ++ '\n' :: decodeLossy after ∧
        decodeLossy (before ++ cr :: after) = decodeLossy before ++ '\r' :: decodeLossy after) ∧
      ∀ text, bytes = encode text →
        given = (Newline.lines '\n' '\r' text).map (fun line => .ok (.ofList line)) ∧
        (Newline.lines '\n' '\r' text).map encode = Newline.lines lf cr bytes ∧
        ∀ line ∈ Newline.lines '\n' '\r' text, encode line <:+: bytes := by
  intro bytes given
  have hgiven : given = (Newline.lines '\n' '\r' (decodeLossy bytes)).map
      (fun line => .ok (.ofList line)) := by
    rw [keeps_decodeLossy.map_lines (by decide) (by decide), List.map_map]
    exact lines_of_events hcap (events_of_deliveries capacity hfaults)
  refine ⟨hgiven, fun before after =>
    ⟨keeps_decodeLossy.feed before after, keeps_decodeLossy.bare before after⟩, ?_⟩
  intro text htext
  have hlines : Newline.lines lf cr bytes = (Newline.lines '\n' '\r' text).map encode := by
    rw [htext, keeps_encode.map_lines (by decide) (by decide)]
  refine ⟨?_, hlines.symm, fun line hmem => ?_⟩
  · rw [hgiven, htext, decodeLossy_encode]
  · have hbytes : encode line ∈ Newline.lines lf cr bytes := hlines ▸ List.mem_map_of_mem hmem
    exact Newline.infix_of_mem_lines (by decide) hbytes

/-- A sequence of four bytes that a return breaks off behind its second byte, and a line feed that
stands where a continuation byte should. -/
theorem lines_broken_sequences :
    let deliveries : List Delivery := [.data [0xF0, 0x9F, 0x0D, 0x98, 0xC3], .data [0x0A, 0x62]]
    0 < 1 ∧ (∀ f, Delivery.fault f ∈ deliveries → f.interrupted) ∧
      ({ deliveries, capacity := 1 } : Source).lines =
        (Newline.lines '\n' '\r' ['\uFFFD', '\r', '\uFFFD', '\uFFFD', '\n', 'b']).map
          (fun line => .ok (.ofList line)) := by
  intro deliveries
  have hfaults : ∀ f, Delivery.fault f ∈ deliveries → f.interrupted := by simp [deliveries]
  exact ⟨by decide, hfaults, (lines_eq_lines_decodeLossy deliveries 1 (by decide) hfaults).1⟩

end Source

end HotFrames

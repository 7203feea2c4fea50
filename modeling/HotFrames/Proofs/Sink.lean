import HotFrames.Sink
import Mathlib

/-!
# What a sink takes

However a sink cuts its writes, in the end it holds what there was room for: offering it all of
some bytes adds the part of them that fits (`Sink.part`), and fails if this is not all of them
(`Sink.writeAll_eq`).  What one offer after the other adds is what their concatenation adds
(`Sink.Takes.append`), also when the offers end at the first that does not fit
(`Sink.Takes.append_of_full`).  So pieces that are written one by one up to the first failure, with a
flush behind them, are taken as their concatenation is (`Sink.writePieces_eq`).
-/

namespace HotFrames

namespace Sink

variable {s t u : Sink} {bytes more : List UInt8}

/-- The part of some bytes for which there is room. -/
def part (s : Sink) (bytes : List UInt8) : List UInt8 :=
  match s.room with
  | none => bytes
  | some room => bytes.take room

/-- The fault of an offer that finds no room. -/
def fullFault (s : Sink) : Fault :=
  match s.whenFull with
  | .refuse fault => fault
  | .takeNothing => .writeZero

theorem part_of_none (h : s.room = none) (bytes : List UInt8) : s.part bytes = bytes := by
  rw [part, h]

theorem part_of_some {room : ℕ} (h : s.room = some room) (bytes : List UInt8) :
    s.part bytes = bytes.take room := by
  rw [part, h]

theorem part_prefix (s : Sink) (bytes : List UInt8) : s.part bytes <+: bytes := by
  rcases h : s.room with _ | room
  · exact ⟨[], by rw [part_of_none h, List.append_nil]⟩
  · rw [part_of_some h]
    exact List.take_prefix room bytes

/-! ## One write -/

theorem share_eq_zero_iff (s : Sink) {n : ℕ} (hn : 0 < n) : s.share n = 0 ↔ s.room = some 0 := by
  rcases hr : s.room with _ | room <;> rcases hp : s.portions with _ | ⟨p, rest⟩ <;>
    simp [share, hr, hp] <;> omega

theorem share_le (s : Sink) (n : ℕ) : s.share n ≤ n := by
  rcases hr : s.room with _ | room <;> rcases hp : s.portions with _ | ⟨p, rest⟩ <;>
    simp only [share, hr, hp] <;> omega

theorem share_le_room {room : ℕ} (h : s.room = some room) (n : ℕ) : s.share n ≤ room := by
  simp only [share, h]
  omega

/-- The sink after a write that took `n` bytes. -/
def took (s : Sink) (n : ℕ) (bytes : List UInt8) : Sink :=
  { s with
    taken := bytes.take n :: s.taken
    room := s.room.map (· - n)
    portions := s.portions.tail }

/-- A write fails or takes nothing if there is no room, and otherwise takes some bytes. -/
theorem write_cases (s : Sink) (hne : bytes ≠ []) :
    (s.room = some 0 ∧ ((s.write bytes = (.error s.fullFault, s)) ∨
      s.write bytes = (.ok 0, s) ∧ s.fullFault = .writeZero)) ∨
    ∃ n, s.share bytes.length = n + 1 ∧ s.write bytes = (.ok (n + 1), s.took (n + 1) bytes) := by
  have hempty : bytes.isEmpty = false := by simpa using hne
  rcases Nat.eq_zero_or_pos (s.share bytes.length) with h | h
  · refine .inl ⟨(s.share_eq_zero_iff (List.length_pos_iff.2 hne)).1 h, ?_⟩
    rcases hw : s.whenFull with fault | _
    · exact .inl (by simp [write, hempty, h, hw, fullFault])
    · exact .inr (by simp [write, hempty, h, hw, fullFault])
  · obtain ⟨n, hn⟩ := Nat.exists_eq_add_one_of_ne_zero (Nat.ne_of_gt h)
    exact .inr ⟨n, hn, by simp [write, hempty, hn, took]⟩

/-! ## Offers -/

/-- What becomes of a sink that is offered some bytes: it holds the part of them that fits behind
what it held, and there is less room. -/
structure Takes (s : Sink) (bytes : List UInt8) (later : Sink) : Prop where
  written : later.written = s.written ++ s.part bytes
  room : later.room = s.room.map (· - bytes.length)
  whenFull : later.whenFull = s.whenFull
  flushFault : later.flushFault = s.flushFault

namespace Takes

theorem nil (s : Sink) : Takes s [] s where
  written := by rcases h : s.room <;> simp [part, h]
  room := by rcases h : s.room <;> simp
  whenFull := rfl
  flushFault := rfl

/-- A sink without room takes nothing. -/
theorem of_full (h : s.room = some 0) (bytes : List UInt8) : Takes s bytes s where
  written := by simp [part, h]
  room := by simp [h]
  whenFull := rfl
  flushFault := rfl

theorem fullFault (h : Takes s bytes t) : t.fullFault = s.fullFault := by
  rw [Sink.fullFault, Sink.fullFault, h.whenFull]

/-- A later offer finds the room that an earlier one has left. -/
theorem part_append (h : Takes s bytes t) (more : List UInt8) :
    s.part (bytes ++ more) = s.part bytes ++ t.part more := by
  rcases hr : s.room with _ | room
  · have ht : t.room = none := by rw [h.room, hr, Option.map_none]
    rw [part_of_none hr, part_of_none hr, part_of_none ht]
  · have ht : t.room = some (room - bytes.length) := by rw [h.room, hr, Option.map_some]
    rw [part_of_some hr, part_of_some hr, part_of_some ht, List.take_append]

/-- Two offers are one offer of both. -/
theorem append (h : Takes s bytes t) (h' : Takes t more u) : Takes s (bytes ++ more) u where
  written := by rw [h'.written, h.written, h.part_append, List.append_assoc]
  room := by
    rw [h'.room, h.room, Option.map_map, List.length_append]
    exact congrArg (s.room.map ·) (funext fun room => Nat.sub_sub ..)
  whenFull := h'.whenFull.trans h.whenFull
  flushFault := h'.flushFault.trans h.flushFault

/-- Where an offer does not fit, there is no room left. -/
theorem room_of_part_ne (h : Takes s bytes t) (hpart : s.part bytes ≠ bytes) :
    t.room = some 0 := by
  rcases hr : s.room with _ | room
  · exact absurd (part_of_none hr bytes) hpart
  · have hlt : room < bytes.length := by
      by_contra hge
      exact hpart ((part_of_some hr bytes).trans (List.take_of_length_le (Nat.le_of_not_lt hge)))
    rw [h.room, hr, Option.map_some, Nat.sub_eq_zero_of_le (Nat.le_of_lt hlt)]

/-- An offer that does not fit might as well have been longer. -/
theorem append_of_full (h : Takes s bytes t) (hpart : s.part bytes ≠ bytes)
    (more : List UInt8) : Takes s (bytes ++ more) t :=
  h.append (of_full (h.room_of_part_ne hpart) more)

/-- Two offers fit if the first one fits and the second one fits behind it. -/
theorem part_append_eq_iff (h : Takes s bytes t) (more : List UInt8) :
    s.part (bytes ++ more) = bytes ++ more ↔ s.part bytes = bytes ∧ t.part more = more := by
  rw [h.part_append]
  refine ⟨fun he => ?_, fun ⟨h1, h2⟩ => by rw [h1, h2]⟩
  have hlen := congrArg List.length he
  have h1 := (s.part_prefix bytes).length_le
  have h2 := (t.part_prefix more).length_le
  rw [List.length_append, List.length_append] at hlen
  exact ⟨(s.part_prefix bytes).eq_of_length (by omega),
    (t.part_prefix more).eq_of_length (by omega)⟩

end Takes

/-- What one write takes is what becomes of the part that it takes. -/
theorem takes_took (s : Sink) (bytes : List UInt8) :
    let n := s.share bytes.length
    s.part (bytes.take n) = bytes.take n ∧ Takes s (bytes.take n) (s.took n bytes) := by
  intro n
  have hpart : s.part (bytes.take n) = bytes.take n := by
    rcases hr : s.room with _ | room
    · exact part_of_none hr _
    · rw [part_of_some hr, List.take_take, Nat.min_eq_right (share_le_room hr bytes.length)]
  refine ⟨hpart, ?_, ?_, rfl, rfl⟩
  · simp [hpart, written, took]
  · rw [took, List.length_take, Nat.min_eq_left (s.share_le bytes.length)]

theorem writeAll_nil (s : Sink) : s.writeAll [] = (.ok (), s) := by rw [writeAll]

theorem writeAll_of_error {fault : Fault} (hne : bytes ≠ [])
    (h : s.write bytes = (.error fault, t)) : s.writeAll bytes = (.error fault, t) := by
  obtain ⟨b, bs, rfl⟩ := List.exists_cons_of_ne_nil hne
  rw [writeAll, h]

theorem writeAll_of_zero (hne : bytes ≠ []) (h : s.write bytes = (.ok 0, t)) :
    s.writeAll bytes = (.error .writeZero, t) := by
  obtain ⟨b, bs, rfl⟩ := List.exists_cons_of_ne_nil hne
  rw [writeAll, h]

theorem writeAll_of_succ {n : ℕ} (hne : bytes ≠ []) (h : s.write bytes = (.ok (n + 1), t)) :
    s.writeAll bytes = t.writeAll (bytes.drop (n + 1)) := by
  obtain ⟨b, bs, rfl⟩ := List.exists_cons_of_ne_nil hne
  rw [writeAll, h]

/-- **Offering all of some bytes adds the part that fits**, in whatever portions the sink takes it,
and fails if that is not all. -/
theorem writeAll_eq (s : Sink) (bytes : List UInt8) :
    Takes s bytes (s.writeAll bytes).2 ∧
      (s.writeAll bytes).1 = if s.part bytes = bytes then .ok () else .error s.fullFault := by
  induction hn : bytes.length using Nat.strongRecOn generalizing s bytes with
  | _ n ih =>
    by_cases hne : bytes = []
    · have hpart : s.part [] = [] := List.prefix_nil.1 (s.part_prefix [])
      rw [hne, writeAll_nil, if_pos hpart]
      exact ⟨Takes.nil s, rfl⟩
    rcases s.write_cases hne with ⟨hroom, hw⟩ | ⟨k, hk, hw⟩
    · have hpart : s.part bytes ≠ bytes := by
        rw [part_of_some hroom, List.take_zero]
        exact Ne.symm hne
      rw [if_neg hpart]
      rcases hw with hw | ⟨hw, hzero⟩
      · rw [writeAll_of_error hne hw]
        exact ⟨Takes.of_full hroom bytes, rfl⟩
      · rw [writeAll_of_zero hne hw, hzero]
        exact ⟨Takes.of_full hroom bytes, rfl⟩
    · -- The write takes some bytes; the rest is offered to the sink behind them.
      obtain ⟨hfits, htook⟩ := s.takes_took bytes
      rw [hk] at hfits htook
      obtain ⟨hrest, hresult⟩ := ih (bytes.drop (k + 1)).length
        (by rw [List.length_drop]; have := List.length_pos_iff.2 hne; omega)
        (s.took (k + 1) bytes) (bytes.drop (k + 1)) rfl
      have hsplit := htook.part_append_eq_iff (bytes.drop (k + 1))
      rw [writeAll_of_succ hne hw, hresult, htook.fullFault]
      rw [List.take_append_drop] at hsplit
      refine ⟨?_, if_congr ?_ rfl rfl⟩
      · have := htook.append hrest
        rwa [List.take_append_drop] at this
      · rw [hsplit]
        exact (and_iff_right hfits).symm

/-! ## Pieces -/

/-- Writes pieces one by one until one fails, and then flushes. -/
def writePieces (s : Sink) : List (List UInt8) → Except Fault Unit × Sink
  | [] => s.flush
  | piece :: pieces =>
    match s.writeAll piece with
    | (.error fault, t) => (.error fault, t)
    | (.ok (), t) => t.writePieces pieces

/-- Flushing changes nothing. -/
theorem flush_eq (s : Sink) :
    s.flush = (match s.flushFault with
      | none => .ok ()
      | some fault => .error fault, s) := by
  unfold flush
  cases s.flushFault <;> rfl

/-- **Pieces are written as one offer of all their bytes**, which a flush follows if they fit. -/
theorem writePieces_eq (s : Sink) (pieces : List (List UInt8)) :
    Takes s pieces.flatten (s.writePieces pieces).2 ∧
      (s.writePieces pieces).1 =
        if s.part pieces.flatten = pieces.flatten then s.flush.1 else .error s.fullFault := by
  induction pieces generalizing s with
  | nil =>
    have hpart : s.part [] = [] := List.prefix_nil.1 (s.part_prefix [])
    rw [writePieces, List.flatten_nil, if_pos hpart, flush_eq]
    exact ⟨.nil s, rfl⟩
  | cons piece pieces ih =>
    obtain ⟨htakes, hresult⟩ := s.writeAll_eq piece
    have hboth := htakes.part_append_eq_iff pieces.flatten
    rcases hwrite : s.writeAll piece with ⟨result, t⟩
    rw [hwrite] at htakes hresult hboth
    have hflush : t.flushFault = s.flushFault := htakes.flushFault
    obtain ⟨hmore, hends⟩ := ih t
    rw [List.flatten_cons]
    by_cases hpart : s.part piece = piece
    · obtain rfl : result = .ok () := hresult.trans (if_pos hpart)
      rw [writePieces, hwrite]
      refine ⟨htakes.append hmore, hends.trans ?_⟩
      simp only [hboth, hpart, true_and, flush_eq, hflush, htakes.fullFault]
    · obtain rfl : result = .error s.fullFault := hresult.trans (if_neg hpart)
      rw [writePieces, hwrite]
      exact ⟨htakes.append_of_full hpart _, (if_neg fun h => hpart (hboth.1 h).1).symm⟩

/-- How writing some bytes to a sink with room for `k` bytes ends.  The sink holds the first of
them, as many as fit.  Writing succeeds if these are all and the flush succeeds; otherwise the error is
the fault of a write that found no room, or of the flush. -/
structure EndsWithin (k : ℕ) (s : Sink) (bytes : List UInt8) (result : Except Fault Unit)
    (later : Sink) : Prop where
  written : later.written = s.written ++ bytes.take (min k bytes.length)
  ok_iff : result = .ok () ↔ bytes.length ≤ k ∧ s.flushFault = none
  refused : k < bytes.length → ∀ fault, s.whenFull = .refuse fault → result = .error fault
  stuck : k < bytes.length → s.whenFull = .takeNothing →
    result = .error ⟨"failed to write whole buffer", false⟩
  unflushed : bytes.length ≤ k → ∀ fault, s.flushFault = some fault → result = .error fault

theorem part_eq_iff {k : ℕ} (hroom : s.room = some k) (bytes : List UInt8) :
    s.part bytes = bytes ↔ bytes.length ≤ k := by
  rw [part_of_some hroom, List.take_eq_self_iff]

/-- What one offer of some bytes and a flush behind it come to. -/
theorem Takes.endsWithin {k : ℕ} (hroom : s.room = some k) (htakes : Takes s bytes t) :
    EndsWithin k s bytes (if s.part bytes = bytes then s.flush.1 else .error s.fullFault) t := by
  have hwritten : t.written = s.written ++ bytes.take (min k bytes.length) := by
    rw [htakes.written, part_of_some hroom, ← List.take_eq_take_min]
  rcases Nat.lt_or_ge k bytes.length with hlt | hle
  · have hcut : ¬ s.part bytes = bytes := fun h => Nat.not_le.2 hlt ((part_eq_iff hroom bytes).1 h)
    rw [if_neg hcut]
    refine ⟨hwritten, ⟨nofun, fun h => absurd h.1 (Nat.not_le.2 hlt)⟩, fun _ fault hfull => ?_,
      fun _ hfull => ?_, fun h => absurd h (Nat.not_le.2 hlt)⟩
    · rw [Sink.fullFault, hfull]
    · rw [Sink.fullFault, hfull]
      rfl
  · rw [if_pos ((part_eq_iff hroom bytes).2 hle), flush_eq]
    refine ⟨hwritten, ?_, fun h => absurd hle (Nat.not_le.2 h), fun h => absurd hle (Nat.not_le.2 h),
      fun _ fault hflush => by rw [hflush]⟩
    cases s.flushFault <;> simp [hle]

end Sink

end HotFrames

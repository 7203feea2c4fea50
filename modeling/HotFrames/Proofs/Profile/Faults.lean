import HotFrames.Proofs.Profile.Lines
import HotFrames.Proofs.Source.Faults

/-!
# Profiles of inputs that break off

When a read fails, the profile holds the lines up to the last line feed in front of the fault, and
the fault is reported unless these lines overflow the total (`Profile.consume_lines_then_fault`).
Lines that have ended with a bare return behind that line feed are lost, so nothing but the
unfinished line is lost just if there are none (`Profile.consume_eq_iff_not_mem`).
-/

namespace HotFrames

namespace Profile

open Source

/-- Lines in front of a fault are consumed as if they were all, and then the fault is reported. -/
theorem consume_lines_then_fault (p : Profile) (lines : List String) (fault : Fault)
    (rest : List (Except Fault String)) :
    p.consume (lines.map .ok ++ .error fault :: rest) =
      match p.consume (lines.map .ok) with
      | (.ok (), q) => (.error (.readFailed fault), q)
      | stopped => stopped := by
  induction lines generalizing p with
  | nil => rfl
  | cons line lines ih =>
    rw [List.map_cons, List.cons_append, consume, consume]
    rcases p.recordLine line with ⟨_ | _, q⟩
    · rfl
    · exact ih q

variable {bytes : List UInt8} {items : List (Except Fault String)} {fault : Fault} {p : Profile}

/-- Where all finished lines can be read, the fault is reported, and the profile is that of the
finished lines just if no return stands behind the last line feed. -/
theorem consume_eq_iff_not_mem
    (hitems : ∃ rest, items = (textLines (upToFeed bytes)).map .ok ++ .error fault :: rest)
    (hp : empty.consume ((textLines (upToTerminator bytes)).map .ok) = (.ok (), p)) :
    (empty.consume items).1 = .error (.readFailed fault) ∧
      (empty.consume items = (.error (.readFailed fault), p) ↔ cr ∉ behindFeed bytes) := by
  obtain ⟨rest, rfl⟩ := hitems
  have hfinished := consume_lines_eq_ok_iff.1 (congrArg Prod.fst hp)
  have hsplit := textLines_upToTerminator bytes
  have hlost := length_lines_upToTerminator (not_mem_behindFeed bytes)
  have hcovers := covers_consume hfinished
  rw [hp] at hcovers
  have hgiven : Stack.sum (Stack.ofLines (textLines (upToFeed bytes))) < Samples.bound := by
    rw [hsplit, Stack.ofLines, List.filterMap_append, Stack.sum_append] at hfinished
    exact Nat.lt_of_le_of_lt (Nat.le_add_right _ _) hfinished
  have hread := consume_lines_then_fault empty (textLines (upToFeed bytes)) fault rest
  have hok := consume_lines_eq_ok_iff.2 hgiven
  have hcount := (covers_consume hgiven).linesRead
  rcases hconsume : empty.consume ((textLines (upToFeed bytes)).map .ok) with ⟨result, q⟩
  rw [hconsume] at hread hok hcount
  obtain rfl : result = .ok () := hok
  simp only at hread hcount
  rw [hread]
  refine ⟨rfl, ?_⟩
  rw [Prod.mk.injEq, eq_self, true_and]
  constructor
  · -- The number of lines tells the two profiles apart.
    rintro rfl
    rw [← List.count_eq_zero, ← hlost]
    have hlength := congrArg List.length hsplit
    rw [List.length_append, ← hcovers.linesRead, hcount] at hlength
    omega
  · intro hcr
    rw [← List.count_eq_zero, ← hlost, List.length_eq_zero_iff] at hcr
    rw [hsplit, hcr, List.append_nil, hconsume] at hp
    exact congrArg Prod.snd hp

/-- A line that a bare return has ended is lost with the fault behind it, and its sample with it. -/
theorem consume_loses_bare_return :
    let fault : Fault := ⟨"boom", false⟩
    let bytes := Utf8.encode "main;run 1\r".toList
    let source : Source := { deliveries := [.data bytes, .fault fault] }
    let finished := empty.consume ((textLines (upToTerminator bytes)).map .ok)
    finished.1 = .ok () ∧ finished.2.total.val = 1 ∧
      empty.consume source.lines ≠ (.error (.readFailed fault), finished.2) := by
  intro fault bytes source finished
  have hok : finished.1 = .ok () := by decide +kernel
  have hitems : ∃ rest,
      source.lines = (textLines (upToFeed bytes)).map .ok ++ .error fault :: rest := by
    have hevents : source.events = bytes.map .ok ++ .error fault :: [] := by decide +kernel
    obtain ⟨later, hlater⟩ := exists_lines_of_fault (Nat.zero_lt_succ _) hevents
    exact ⟨later.lines, hlater⟩
  refine ⟨hok, by decide +kernel, fun hkept => ?_⟩
  exact absurd (by decide +kernel) ((consume_eq_iff_not_mem hitems (Prod.ext hok rfl)).2.1 hkept)

/-- **A read failure costs what was delivered behind the last line feed.**  The lines up to there are
read as if they were all, and the fault is reported unless they overflow the total.  They are the
first of the finished lines, and for each return behind the last line feed one more has ended.  So
where the finished lines can be read, the profile is theirs just if there is no such return. -/
theorem consume_before_fault (pieces later : List Delivery) (fault : Fault) (capacity : ℕ)
    (hcap : 0 < capacity) (hpieces : ∀ f, .fault f ∈ pieces → f.interrupted)
    (hfault : fault.interrupted = false) :
    let bytes := pieces.flatMap Delivery.bytes
    let source : Source := { deliveries := pieces ++ .fault fault :: later, capacity }
    let given := textLines (upToFeed bytes)
    let finished := textLines (upToTerminator bytes)
    (empty.consume source.lines =
      match empty.consume (given.map .ok) with
      | (.ok (), p) => (.error (.readFailed fault), p)
      | stopped => stopped) ∧
    (given <+: finished ∧ finished.length = given.length + (behindFeed bytes).count cr) ∧
    ∀ p, empty.consume (finished.map .ok) = (.ok (), p) →
      (empty.consume source.lines).1 = .error (.readFailed fault) ∧
      (empty.consume source.lines = (.error (.readFailed fault), p) ↔ cr ∉ behindFeed bytes) := by
  intro bytes source given finished
  have hevents : source.events =
      bytes.map .ok ++ .error fault :: later.flatMap Delivery.events := by
    have hfront := (events_of_deliveries capacity hpieces)
    rw [events, List.map_nil, List.nil_append] at hfront
    rw [events, List.map_nil, List.nil_append, List.flatMap_append, List.flatMap_cons, hfront,
      Delivery.events, hfault]
    rfl
  obtain ⟨rest, hlines⟩ := exists_lines_of_fault hcap hevents
  refine ⟨?_, ⟨?_, ?_⟩, fun p hp => consume_eq_iff_not_mem ⟨rest.lines, hlines⟩ hp⟩
  · rw [hlines]
    exact consume_lines_then_fault empty given fault rest.lines
  · exact ⟨_, (textLines_upToTerminator bytes).symm⟩
  · rw [← length_lines_upToTerminator (not_mem_behindFeed bytes), ← List.length_append]
    exact congrArg List.length (textLines_upToTerminator bytes)

/-- A torn `\r\n` and a bare return in front of the last line feed, then an interrupted read and an
unfinished line. -/
theorem consume_before_fault_behind_feed :
    let fault : Fault := ⟨"boom", false⟩
    let pieces : List Delivery := [.data (Utf8.encode "a 1\rb 2\r".toList),
      .data (Utf8.encode "\nc".toList), .fault ⟨"again", true⟩, .data (Utf8.encode " 3".toList)]
    let source : Source := { deliveries := pieces ++ .fault fault :: [], capacity := 2 }
    ∃ p, empty.consume (["a 1", "b 2"].map .ok) = (.ok (), p) ∧
      empty.consume source.lines = (.error (.readFailed fault), p) := by
  intro fault pieces source
  have hpieces : ∀ f, .fault f ∈ pieces → f.interrupted := by simp [pieces]
  have hfinished : textLines (upToTerminator (pieces.flatMap Delivery.bytes)) = ["a 1", "b 2"] := by
    decide +kernel
  have hok : (empty.consume (["a 1", "b 2"].map .ok)).1 = .ok () := by decide +kernel
  obtain ⟨-, -, hread⟩ := consume_before_fault pieces [] fault 2 (by decide) hpieces rfl
  rw [hfinished] at hread
  exact ⟨_, Prod.ext hok rfl, (hread _ (Prod.ext hok rfl)).2.2 (by decide +kernel)⟩

end Profile

end HotFrames

import HotFrames.Proofs.Profile.Tables
import HotFrames.Proofs.Source.Lines

/-!
# Where consuming stops

Items are consumed up to the first that is a fault or a line whose stack does not fit into the total
any more (`Profile.Stops`).  Whether an item is such a one depends on the counts up to it alone, and
not on what was made of the lines before: as long as nothing stops, the total grows by just these
counts (`Profile.stops_cons_succ`).  The items before the first stop leave the profile that they
leave one by one (`Profile.consume_append_of_not_stops`), and no item behind it is looked at.  For
the lines of a source without faults the first stop is the first line at which the running sum of
the counts is out of range (`Profile.stops_first_iff_isLeast`).
-/

namespace HotFrames

namespace Stack

/-- The stacks on the lines among some items. -/
def ofItems (items : List (Except Fault String)) : List Stack :=
  items.filterMap fun item => item.toOption.bind parse?

theorem ofItems_lines (lines : List String) : ofItems (lines.map .ok) = ofLines lines := by
  rw [ofItems, List.filterMap_map]
  rfl

theorem sum_append (ss more : List Stack) : sum (ss ++ more) = sum ss + sum more := by
  rw [sum, List.map_append, List.sum_append]
  rfl

theorem ofItems_append (items more : List (Except Fault String)) :
    ofItems (items ++ more) = ofItems items ++ ofItems more :=
  List.filterMap_append

theorem ofItems_of_some {line : String} {s : Stack} (h : parse? line = some s) :
    ofItems [.ok line] = [s] := by
  simp [ofItems, Except.toOption, h]

theorem ofItems_of_none {line : String} (h : parse? line = none) : ofItems [.ok line] = [] := by
  simp [ofItems, Except.toOption, h]

end Stack

namespace Profile

variable {p : Profile} {item : Except Fault String} {items : List (Except Fault String)} {i : ℕ}

/-- Whether the item at a place cannot be consumed.  It is a fault, or a line with a stack, and the
total of the profile and the counts up to this one together are out of range. -/
def Stops (p : Profile) (items : List (Except Fault String)) (i : ℕ) : Prop :=
  (∃ fault, items[i]? = some (.error fault)) ∨
    ∃ line s, items[i]? = some (.ok line) ∧ Stack.parse? line = some s ∧
      Samples.bound ≤ p.total.val + Stack.sum (Stack.ofItems (items.take (i + 1)))

/-- What a profile becomes when it is shown an item.  A fault leaves it as it is. -/
def see (p : Profile) : Except Fault String → Profile
  | .ok line => (p.recordLine line).2
  | .error _ => p

/-- What a profile becomes when it is shown some items one by one. -/
def seen (p : Profile) (items : List (Except Fault String)) : Profile := items.foldl see p

/-! ## One item -/

theorem lt_length_of_stops (h : p.Stops items i) : i < items.length := by
  rcases h with ⟨_, hi⟩ | ⟨_, _, hi, _⟩ <;> exact (List.getElem?_eq_some_iff.1 hi).1

theorem stops_zero_iff_of_some {line : String} {s : Stack} (hs : Stack.parse? line = some s) :
    p.Stops (.ok line :: items) 0 ↔ Samples.bound ≤ p.total.val + s.count.val := by
  have hsum : Stack.sum (Stack.ofItems ((.ok line :: items).take 1)) = s.count.val := by
    rw [List.take_succ_cons, List.take_zero, Stack.ofItems_of_some hs]
    rfl
  constructor
  · rintro (⟨_, hfault⟩ | ⟨_, _, _, _, hge⟩)
    · cases hfault
    · rwa [hsum] at hge
  · intro hge
    exact .inr ⟨line, s, rfl, hs, by rwa [hsum]⟩

/-- An item that does not stop is read, and the rest goes on with what it left. -/
theorem consume_cons_of_not_stops (h : ¬ p.Stops (item :: items) 0)
    (rest : List (Except Fault String)) :
    p.consume (item :: rest) = (p.see item).consume rest ∧
      (p.see item).linesRead = p.linesRead + 1 ∧
      (p.see item).total.val = p.total.val + Stack.sum (Stack.ofItems [item]) := by
  cases item with
  | error fault => exact absurd (.inl ⟨fault, rfl⟩) h
  | ok line =>
    rw [consume, see]
    cases hs : Stack.parse? line with
    | none =>
      rw [recordLine_of_none hs, Stack.ofItems_of_none hs]
      exact ⟨rfl, rfl, rfl⟩
    | some s =>
      rw [stops_zero_iff_of_some hs, Nat.not_le] at h
      rw [recordLine_of_lt hs h, Stack.ofItems_of_some hs]
      exact ⟨rfl, rfl, rfl⟩

/-- A line that stops is counted as read and changes nothing else. -/
theorem consume_cons_of_stops {line : String} (h : p.Stops (.ok line :: items) 0)
    (rest : List (Except Fault String)) :
    p.consume (.ok line :: rest) = (.error (.sampleOverflow (p.linesRead + 1)), p.readOn) := by
  rcases h with ⟨_, hfault⟩ | ⟨_, s, hline, hs, hge⟩
  · cases hfault
  · cases hline
    have hstop : p.Stops (.ok line :: items) 0 := .inr ⟨line, s, rfl, hs, hge⟩
    rw [consume, recordLine_of_le hs ((stops_zero_iff_of_some hs).1 hstop)]

/-! ## Some items -/

/-- Behind an item that does not stop, the others stop for the new total as they do for the old one
with the item in front. -/
theorem stops_cons_succ (h : ¬ p.Stops (item :: items) 0) (i : ℕ) :
    p.Stops (item :: items) (i + 1) ↔ (p.see item).Stops items i := by
  obtain ⟨-, -, htotal⟩ := consume_cons_of_not_stops h items
  have hcons : Stack.ofItems (item :: items.take (i + 1)) =
      Stack.ofItems [item] ++ Stack.ofItems (items.take (i + 1)) :=
    Stack.ofItems_append [item] _
  simp only [Stops, List.getElem?_cons_succ, List.take_succ_cons, hcons, Stack.sum_append, htotal,
    Nat.add_assoc]

/-- The items before the first stop are consumed, and the rest goes on with what they left. -/
theorem consume_append_of_not_stops (h : ∀ j < i, ¬ p.Stops items j)
    (rest : List (Except Fault String)) :
    p.consume (items.take i ++ rest) = (p.seen (items.take i)).consume rest := by
  induction items generalizing p i with
  | nil => rw [List.take_nil]; rfl
  | cons item items ih =>
    cases i with
    | zero => rfl
    | succ i =>
      have hitem := h 0 (Nat.zero_lt_succ i)
      rw [List.take_succ_cons, List.cons_append, (consume_cons_of_not_stops hitem _).1]
      exact ih fun j hj => (stops_cons_succ hitem j).not.1 (h (j + 1) (Nat.succ_lt_succ hj))

/-- The items before the first stop are all counted as read, and their counts added up. -/
theorem seen_of_not_stops (h : ∀ j < i, ¬ p.Stops items j) :
    (p.seen (items.take i)).linesRead = p.linesRead + (items.take i).length ∧
      (p.seen (items.take i)).total.val =
        p.total.val + Stack.sum (Stack.ofItems (items.take i)) := by
  induction items generalizing p i with
  | nil => rw [List.take_nil]; exact ⟨rfl, rfl⟩
  | cons item items ih =>
    cases i with
    | zero => exact ⟨rfl, rfl⟩
    | succ i =>
      have hitem := h 0 (Nat.zero_lt_succ i)
      obtain ⟨-, hread, htotal⟩ := consume_cons_of_not_stops hitem items
      obtain ⟨hread', htotal'⟩ := ih fun j hj =>
        (stops_cons_succ hitem j).not.1 (h (j + 1) (Nat.succ_lt_succ hj))
      have hcons : Stack.ofItems (item :: items.take i) =
          Stack.ofItems [item] ++ Stack.ofItems (items.take i) := Stack.ofItems_append [item] _
      rw [List.take_succ_cons, hcons, Stack.sum_append, seen, List.foldl_cons, ← seen,
        hread', htotal', hread, htotal, List.length_cons]
      omega

/-- The first stop is a stop of what is left, for the profile that the items before it left. -/
theorem stops_drop (hi : p.Stops items i) (h : ∀ j < i, ¬ p.Stops items j) :
    (p.seen (items.take i)).Stops (items.drop i) 0 := by
  obtain ⟨-, htotal⟩ := seen_of_not_stops h
  have hsplit : items.take (i + 1) = items.take i ++ (items.drop i).take 1 := List.take_add
  have hhead : (items.drop i)[0]? = items[i]? := by rw [List.getElem?_drop, Nat.add_zero]
  unfold Stops at hi ⊢
  rwa [hhead, Nat.zero_add, htotal, Nat.add_assoc, ← Stack.sum_append, ← Stack.ofItems_append,
    ← hsplit]

theorem consume_of_not_stops (h : ∀ i, ¬ p.Stops items i) :
    p.consume items = (.ok (), p.seen items) := by
  have happend := consume_append_of_not_stops (fun j (_ : j < items.length) => h j) []
  rwa [List.take_length, List.append_nil] at happend

/-- The first stop ends the work, whatever follows it. -/
theorem consume_append_of_first_stop (hi : p.Stops items i) (h : ∀ j < i, ¬ p.Stops items j)
    (more : List (Except Fault String)) :
    (∃ fault, items[i]? = some (.error fault) ∧
      p.consume (items.take (i + 1) ++ more) =
        (.error (.readFailed fault), p.seen (items.take i))) ∨
    ∃ line, items[i]? = some (.ok line) ∧
      p.consume (items.take (i + 1) ++ more) =
        (.error (.sampleOverflow (p.linesRead + (i + 1))), (p.seen (items.take i)).readOn) := by
  have hlt := lt_length_of_stops hi
  have hitem : items[i]? = some items[i] := List.getElem?_eq_getElem hlt
  have hconsume : p.consume (items.take (i + 1) ++ more) =
      (p.seen (items.take i)).consume (items[i] :: more) := by
    rw [List.take_add_one, hitem, List.append_assoc]
    exact consume_append_of_not_stops h (items[i] :: more)
  have hstop := stops_drop hi h
  rw [List.drop_eq_getElem_cons hlt] at hstop
  rw [hitem, hconsume]
  cases he : items[i] with
  | error fault => exact .inl ⟨fault, rfl, rfl⟩
  | ok line =>
    obtain ⟨hread, -⟩ := seen_of_not_stops h
    rw [List.length_take_of_le (Nat.le_of_lt hlt)] at hread
    rw [he] at hstop
    rw [consume_cons_of_stops hstop more, hread, Nat.add_assoc]
    exact .inr ⟨line, rfl, rfl⟩

/-- The first stop ends the work with an error. -/
theorem consume_of_first_stop (hi : p.Stops items i) (h : ∀ j < i, ¬ p.Stops items j) :
    (∃ fault, items[i]? = some (.error fault) ∧
      p.consume items = (.error (.readFailed fault), p.seen (items.take i))) ∨
    ∃ line, items[i]? = some (.ok line) ∧
      p.consume items =
        (.error (.sampleOverflow (p.linesRead + (i + 1))), (p.seen (items.take i)).readOn) := by
  have happend := consume_append_of_first_stop hi h (items.drop (i + 1))
  rwa [List.take_append_drop] at happend

theorem exists_first_stop (h : ∃ i, p.Stops items i) :
    ∃ i, p.Stops items i ∧ ∀ j < i, ¬ p.Stops items j := by
  classical
  exact ⟨Nat.find h, Nat.find_spec h, fun _ => Nat.find_min h⟩

theorem consume_eq_ok_iff : (p.consume items).1 = .ok () ↔ ∀ i, ¬ p.Stops items i := by
  constructor
  · intro hok i hi
    obtain ⟨j, hj, hfirst⟩ := exists_first_stop ⟨i, hi⟩
    rcases consume_of_first_stop hj hfirst with ⟨_, _, he⟩ | ⟨_, _, he⟩ <;> rw [he] at hok <;>
      cases hok
  · intro h
    rw [consume_of_not_stops h]

/-! ## Lines without faults -/

theorem stops_of_lt_of_le {lines : List String}
    (hlt : p.total.val + Stack.sum (Stack.ofLines (lines.take i)) < Samples.bound)
    (hge : Samples.bound ≤ p.total.val + Stack.sum (Stack.ofLines (lines.take (i + 1)))) :
    p.Stops (lines.map .ok) i := by
  cases hi : lines[i]? with
  | none =>
    rw [List.take_add_one, hi, Option.toList_none, List.append_nil] at hge
    omega
  | some line =>
    have htake : lines.take (i + 1) = lines.take i ++ [line] := by rw [List.take_add_one, hi]; rfl
    cases hs : Stack.parse? line with
    | none =>
      have hsame : Stack.ofLines (lines.take (i + 1)) = Stack.ofLines (lines.take i) := by
        simp [htake, Stack.ofLines, hs]
      rw [hsame] at hge
      omega
    | some s =>
      refine .inr ⟨line, s, by rw [List.getElem?_map, hi]; rfl, hs, ?_⟩
      rwa [← List.map_take, Stack.ofItems_lines]

theorem le_of_stops {lines : List String} (h : p.Stops (lines.map .ok) i) :
    Samples.bound ≤ p.total.val + Stack.sum (Stack.ofLines (lines.take (i + 1))) := by
  rcases h with ⟨_, hi⟩ | ⟨_, _, _, _, hge⟩
  · simp at hi
  · rwa [← List.map_take, Stack.ofItems_lines] at hge

/-- Lines first stop where the running sum of the counts is first out of range. -/
theorem stops_first_iff_isLeast {lines : List String} :
    (p.Stops (lines.map .ok) i ∧ ∀ j < i, ¬ p.Stops (lines.map .ok) j) ↔
      IsLeast {n | Samples.bound ≤ p.total.val + Stack.sum (Stack.ofLines (lines.take n))}
        (i + 1) := by
  constructor
  · rintro ⟨hi, hfirst⟩
    refine ⟨le_of_stops hi, fun n hn => ?_⟩
    -- The sum leaves the range at some line up to the `n`-th, and that line stops.
    by_contra hlt
    classical
    have hex : ∃ n, Samples.bound ≤ p.total.val + Stack.sum (Stack.ofLines (lines.take n)) := ⟨n, hn⟩
    obtain ⟨k, hk⟩ : ∃ k, Nat.find hex = k + 1 := by
      refine Nat.exists_eq_add_one_of_ne_zero fun hzero => ?_
      have hstart := Nat.find_spec hex
      rw [hzero, List.take_zero] at hstart
      exact absurd hstart (Nat.not_le.2 p.total.lt)
    have hle : Nat.find hex ≤ n := Nat.find_min' hex hn
    have hbefore := Nat.find_min hex (m := k) (by omega)
    have hat := Nat.find_spec hex
    rw [hk] at hat
    exact hfirst k (by omega) (stops_of_lt_of_le (Nat.lt_of_not_le hbefore) hat)
  · rintro ⟨hat, hleast⟩
    refine ⟨stops_of_lt_of_le (Nat.lt_of_not_le fun hbefore => ?_) hat, fun j hj hstop => ?_⟩
    · have := hleast hbefore
      omega
    · have := hleast (le_of_stops hstop)
      omega

/-- An overflow is reported for the line at which the running sum of the counts leaves the range. -/
theorem consume_lines_eq_overflow_iff (p : Profile) (lines : List String) (m : ℕ) :
    (p.consume (lines.map .ok)).1 = .error (.sampleOverflow m) ↔
      ∃ n, m = p.linesRead + n ∧
        IsLeast {n | Samples.bound ≤ p.total.val + Stack.sum (Stack.ofLines (lines.take n))} n := by
  by_cases hstops : ∃ i, p.Stops (lines.map .ok) i
  · obtain ⟨i, hi, hfirst⟩ := exists_first_stop hstops
    have hleast := stops_first_iff_isLeast.1 ⟨hi, hfirst⟩
    rcases consume_of_first_stop hi hfirst with ⟨_, hfault, _⟩ | ⟨_, _, hresult⟩
    · simp at hfault
    rw [hresult, Except.error.injEq, Error.sampleOverflow.injEq]
    constructor
    · intro hm
      exact ⟨i + 1, hm.symm, hleast⟩
    · rintro ⟨n, rfl, hn⟩
      rw [hn.unique hleast]
  · have hnone : ∀ i, ¬ p.Stops (lines.map .ok) i := not_exists.1 hstops
    rw [consume_eq_ok_iff.2 hnone]
    refine iff_of_false nofun ?_
    rintro ⟨n, -, hn⟩
    have hpos : n ≠ 0 := by
      rintro rfl
      have hstart : Samples.bound ≤ p.total.val := hn.1
      exact absurd hstart (Nat.not_le.2 p.total.lt)
    obtain ⟨i, rfl⟩ := Nat.exists_eq_add_one_of_ne_zero hpos
    exact hnone i (stops_first_iff_isLeast.2 hn).1

/-- There is such a line just if all counts together are out of range. -/
theorem exists_consume_lines_eq_overflow_iff (p : Profile) (lines : List String) :
    (∃ m, (p.consume (lines.map .ok)).1 = .error (.sampleOverflow m)) ↔
      Samples.bound ≤ p.total.val + Stack.sum (Stack.ofLines lines) := by
  simp only [consume_lines_eq_overflow_iff]
  constructor
  · rintro ⟨_, n, -, hn⟩
    have hat : Samples.bound ≤ p.total.val + Stack.sum (Stack.ofLines (lines.take n)) := hn.1
    have hsplit : Stack.ofLines lines =
        Stack.ofLines (lines.take n) ++ Stack.ofLines (lines.drop n) := by
      rw [Stack.ofLines, Stack.ofLines, Stack.ofLines, ← List.filterMap_append,
        List.take_append_drop]
    rw [hsplit, Stack.sum_append]
    omega
  · intro hge
    classical
    have hex : ∃ n, Samples.bound ≤ p.total.val + Stack.sum (Stack.ofLines (lines.take n)) :=
      ⟨lines.length, by rwa [List.take_length]⟩
    exact ⟨_, Nat.find hex, rfl, Nat.find_spec hex, fun n hn => Nat.find_min' hex hn⟩

/-- **Consuming ends at the first stop, or with the last item if there is none.**  What was recorded
before the stop is kept; a fault adds nothing to it, and an overflow only that one more line was
read, whose number it reports.  Nothing behind the stop matters.  For a new profile and the lines of
a source without faults this is the first line at which the running sum of the counts is no count
any more, and there is one just if all counts together are none. -/
theorem consume_stops_at_first (p : Profile) (items : List (Except Fault String)) :
    ((p.consume items).1 = .ok () ↔ ∀ i, ¬ p.Stops items i) ∧
    ((∀ i, ¬ p.Stops items i) → p.consume items = (.ok (), p.seen items)) ∧
    (∀ i, p.Stops items i → (∀ j < i, ¬ p.Stops items j) →
      p.consume (items.take i) = (.ok (), p.seen (items.take i)) ∧
      (∀ more, p.consume (items.take (i + 1) ++ more) = p.consume items) ∧
      (∀ fault, items[i]? = some (.error fault) →
        p.consume items = (.error (.readFailed fault), p.seen (items.take i))) ∧
      ∀ line, items[i]? = some (.ok line) →
        p.consume items = (.error (.sampleOverflow (p.linesRead + (i + 1))),
          { p.seen (items.take i) with linesRead := (p.seen (items.take i)).linesRead + 1 })) ∧
    ∀ deliveries capacity, 0 < capacity → (∀ f, Delivery.fault f ∈ deliveries → f.interrupted) →
      let given := ({ deliveries, capacity } : Source).lines
      let lines := (Newline.lines Source.lf Source.cr (deliveries.flatMap Delivery.bytes)).map
        Source.lineText
      ((∃ n, (empty.consume given).1 = .error (.sampleOverflow n)) ↔
        Samples.bound ≤ Stack.sum (Stack.ofLines lines)) ∧
      ∀ n, (empty.consume given).1 = .error (.sampleOverflow n) ↔
        IsLeast {n | Samples.bound ≤ Stack.sum (Stack.ofLines (lines.take n))} n := by
  refine ⟨consume_eq_ok_iff, consume_of_not_stops, fun i hi hfirst => ?_, ?_⟩
  · have hbefore := consume_append_of_not_stops hfirst []
    rw [List.append_nil] at hbefore
    have hitems := consume_of_first_stop hi hfirst
    refine ⟨hbefore, fun more => ?_, fun fault hfault => ?_, fun line hline => ?_⟩
    · have hmore := consume_append_of_first_stop hi hfirst more
      rcases hitems with ⟨_, hi1, h1⟩ | ⟨_, hi1, h1⟩ <;>
        rcases hmore with ⟨_, hi2, h2⟩ | ⟨_, hi2, h2⟩ <;> rw [hi1] at hi2 <;> cases hi2 <;>
          rw [h1, h2]
    · rcases hitems with ⟨_, hi1, h1⟩ | ⟨_, hi1, h1⟩ <;> rw [hfault] at hi1 <;> cases hi1
      exact h1
    · rcases hitems with ⟨_, hi1, h1⟩ | ⟨_, hi1, h1⟩ <;> rw [hline] at hi1 <;> cases hi1
      exact h1
  · intro deliveries capacity hcap hfaults given lines
    have hgiven : given = lines.map .ok := by
      rw [List.map_map]
      exact Source.lines_of_events hcap (Source.events_of_deliveries capacity hfaults)
    rw [hgiven]
    refine ⟨?_, fun n => ?_⟩
    · simpa [empty] using exists_consume_lines_eq_overflow_iff empty lines
    · simpa [empty] using consume_lines_eq_overflow_iff empty lines n

/-- A line that fills the total, a blank and a malformed one behind it, and one sample too many on
the fourth line. -/
theorem consume_overflow_on_fourth_line :
    let content := Utf8.encode
      "a;b 340282366920938463463374607431768211455\r\n \rno count\nc 1\nd 5".toList
    (empty.consume (Source.ofBytes content).lines).1 = .error (.sampleOverflow 4) := by
  intro content
  have hfaults : ∀ f, Delivery.fault f ∈ [Delivery.data content] → f.interrupted := by simp
  refine ((((consume_stops_at_first empty []).2.2.2 [.data content] 8192 (by decide) hfaults).2
    4).2 ⟨by decide +kernel, fun n hn => ?_⟩)
  by_contra hlt
  have hcases : n = 0 ∨ n = 1 ∨ n = 2 ∨ n = 3 := by omega
  rcases hcases with rfl | rfl | rfl | rfl <;> revert hn <;> decide +kernel

end Profile

end HotFrames

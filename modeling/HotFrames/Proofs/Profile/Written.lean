import HotFrames.Proofs.Profile.Tables
import HotFrames.Proofs.Source.Lines
import HotFrames.Proofs.Stack

/-!
# Profiles of written stacks

Stacks that are written one to a line, each behind a terminator of its own choice, are read back
without loss (`Profile.consume_written`).  The lines of the text are the lines of the stacks
(`Stack.lines_fileText`): a line holds no terminator, and none begins with a line feed, so that a
bare return stays one.  Each line is read back as its stack, and reading it does what recording the
stack does, except that the line is counted (`Profile.consume_lines_of_stacks`).
-/

namespace HotFrames

/-- What ends a line. -/
inductive Terminator
  | feed
  | returnFeed
  | bareReturn
  deriving DecidableEq, Repr

namespace Terminator

/-- The characters of a terminator. -/
def text : Terminator → List Char
  | feed => ['\n']
  | returnFeed => ['\r', '\n']
  | bareReturn => ['\r']

end Terminator

namespace Stack

/-- The text of some stacks, each on a line with its terminator, and behind them the line of a last
one that is not terminated, if there is such a one. -/
def fileText (records : List (Stack × Terminator)) (last : Option Stack) : List Char :=
  (records.flatMap fun r => r.1.line.toList ++ r.2.text) ++
    last.toList.flatMap fun s => s.line.toList

/-- The stacks of such a text in order. -/
def ofRecords (records : List (Stack × Terminator)) (last : Option Stack) : List Stack :=
  records.map Prod.fst ++ last.toList

variable {records : List (Stack × Terminator)} {last : Option Stack}

theorem fileText_cons (s : Stack) (t : Terminator) (records : List (Stack × Terminator))
    (last : Option Stack) :
    fileText ((s, t) :: records) last = s.line.toList ++ (t.text ++ fileText records last) := by
  simp [fileText]

theorem Writable.head?_append_ne {s : Stack} (h : s.Writable) (rest : List Char) :
    (s.line.toList ++ rest).head? ≠ some '\n' := by
  obtain ⟨c, hc, hblank⟩ := h.head?_line
  rw [List.head?_append, hc, Option.some_or, ne_eq, Option.some.injEq]
  rintro rfl
  exact absurd hblank (by decide)

/-- The text of some stacks does not begin with a line feed. -/
theorem head?_fileText_ne (h : ∀ s ∈ ofRecords records last, s.Writable) :
    (fileText records last).head? ≠ some '\n' := by
  cases records with
  | nil =>
    cases last with
    | none => exact nofun
    | some s => exact (h s List.mem_cons_self).head?_append_ne []
  | cons r records =>
    rw [fileText_cons]
    exact (h r.1 List.mem_cons_self).head?_append_ne _

/-- The lines of the text of some stacks are the lines of the stacks. -/
theorem lines_fileText (h : ∀ s ∈ ofRecords records last, s.Writable) :
    Newline.lines '\n' '\r' (fileText records last) =
      (ofRecords records last).map fun s => s.line.toList := by
  induction records with
  | nil =>
    cases last with
    | none => rfl
    | some s =>
      have hs : s.Writable := h s List.mem_cons_self
      have hne : s.line.toList ≠ [] := by
        obtain ⟨_, hc, _⟩ := hs.head?_line
        exact List.ne_nil_of_mem (List.mem_of_head? hc)
      simpa [fileText, ofRecords] using Newline.lines_of_unbroken hs.not_mem_line hne
  | cons r records ih =>
    obtain ⟨s, t⟩ := r
    have hs : s.Writable := h s List.mem_cons_self
    have hrest : ∀ s ∈ ofRecords records last, s.Writable := fun s hmem =>
      h s (List.mem_cons_of_mem _ hmem)
    have hlines : Newline.lines '\n' '\r' (fileText ((s, t) :: records) last) =
        s.line.toList :: Newline.lines '\n' '\r' (fileText records last) := by
      rw [fileText_cons]
      cases t with
      | feed => exact Newline.lines_append_lf (by decide) hs.not_mem_line _
      | returnFeed => exact Newline.lines_append_cr_lf hs.not_mem_line _
      | bareReturn => exact Newline.lines_append_cr hs.not_mem_line (head?_fileText_ne hrest)
    rw [hlines, ih hrest]
    rfl

end Stack

namespace Profile

/-- A profile as if it had read a number of lines. -/
def atLine (p : Profile) (n : ℕ) : Profile := { p with linesRead := n }

/-- Reading the lines of stacks is recording the stacks and counting the lines. -/
theorem consume_lines_of_stacks {ss : List Stack} (h : ∀ s ∈ ss, Stack.parse? s.line = some s)
    (p : Profile) (n : ℕ) :
    (∀ q, ss.foldlM record p = .ok q →
      (p.atLine n).consume (ss.map (.ok ·.line)) = (.ok (), q.atLine (n + ss.length)) ∧
        q.skipped = p.skipped) ∧
    ∀ e, ss.foldlM record p = .error e →
      ((p.atLine n).consume (ss.map (.ok ·.line))).1 ≠ .ok () := by
  induction ss generalizing p n with
  | nil =>
    refine ⟨fun q hq => ?_, fun e he => ?_⟩
    · cases hq
      exact ⟨rfl, rfl⟩
    · cases he
  | cons s ss ih =>
    have hs : Stack.parse? s.line = some s := h s List.mem_cons_self
    rw [List.foldlM_cons, List.map_cons, consume]
    rcases Nat.lt_or_ge (p.total.val + s.count.val) Samples.bound with hlt | hge
    · obtain ⟨hok, herror⟩ := ih (fun s hmem => h s (List.mem_cons_of_mem _ hmem)) (p.plus s hlt)
        (n + 1)
      rw [record_of_lt hlt, recordLine_of_lt (p := p.atLine n) hs hlt, List.length_cons,
        Nat.add_comm ss.length 1, ← Nat.add_assoc]
      exact ⟨hok, herror⟩
    · rw [record_of_le hge, recordLine_of_le (p := p.atLine n) hs hge]
      refine ⟨fun q hq => ?_, fun e _ herror => ?_⟩
      · cases hq
      · cases herror

/-- **Written stacks are read back without loss**, whatever terminators their lines have.  Reading
the text succeeds just if the stacks can be recorded one after the other, and then it gives what
recording them gives, with every line counted and none skipped. -/
theorem consume_written (records : List (Stack × Terminator)) (last : Option Stack)
    (h : ∀ s ∈ Stack.ofRecords records last, s.Writable) :
    let items := (Source.ofBytes (Utf8.encode (Stack.fileText records last))).lines
    let ss := Stack.ofRecords records last
    ((empty.consume items).1 = .ok () ↔ ∃ p, ss.foldlM record empty = .ok p) ∧
    ∀ p, ss.foldlM record empty = .ok p →
      ∃ q, empty.consume items = (.ok (), q) ∧
        q.total = p.total ∧ q.parsed = p.parsed ∧
        (∀ scope, (q.table scope).entries = (p.table scope).entries) ∧
        q.linesRead = ss.length ∧ q.skipped = 0 := by
  intro items ss
  have hitems : items = ss.map (.ok ·.line) := by
    have hlines := Source.lines_ofBytes (Utf8.encode (Stack.fileText records last))
    rw [Source.keeps_encode.map_lines (by decide) (by decide), Stack.lines_fileText h,
      List.map_map, List.map_map] at hlines
    exact hlines.trans (List.map_congr_left fun s _ => by
      simp [Source.lineText, Utf8.decodeLossy_encode])
  obtain ⟨hok, herror⟩ := consume_lines_of_stacks (fun s hs => Stack.parse?_line (h s hs)) empty 0
  rw [hitems]
  refine ⟨⟨fun hread => ?_, fun ⟨p, hp⟩ => ?_⟩, fun p hp => ?_⟩
  · cases hrecord : ss.foldlM record empty with
    | ok p => exact ⟨p, rfl⟩
    | error e => exact absurd hread (herror e hrecord)
  · exact congrArg Prod.fst (hok p hp).1
  · obtain ⟨hread, hskipped⟩ := hok p hp
    refine ⟨p.atLine (0 + ss.length), hread, rfl, rfl, fun scope => ?_, Nat.zero_add _, hskipped⟩
    cases scope <;> rfl

/-- Spaces, digits and an empty name in the frames, a count that fills the total, and the three
terminators, the last of which is missing. -/
theorem consume_written_full_total :
    let records : List (Stack × Terminator) :=
      [(⟨["a 1", " 7 ", ""], Samples.max⟩, .bareReturn), (⟨["x\u3000"], .zero⟩, .returnFeed)]
    let last : Option Stack := some ⟨["é"], .zero⟩
    (∀ s ∈ Stack.ofRecords records last, s.Writable) ∧
      ∃ q, empty.consume (Source.ofBytes (Utf8.encode (Stack.fileText records last))).lines =
          (.ok (), q) ∧
        q.total = Samples.max ∧ q.linesRead = 3 ∧ q.skipped = 0 := by
  intro records last
  have hwritable : ∀ s ∈ Stack.ofRecords records last, s.Writable := by
    have hall : Stack.ofRecords records last =
        [⟨["a 1", " 7 ", ""], Samples.max⟩, ⟨["x\u3000"], .zero⟩, ⟨["é"], .zero⟩] := rfl
    simp only [hall, List.forall_mem_cons]
    exact ⟨⟨by decide, by decide, 'a', by decide, by decide⟩,
      ⟨by decide, by decide, 'x', by decide, by decide⟩,
      ⟨by decide, by decide, 'é', by decide, by decide⟩, nofun⟩
  obtain ⟨p, hp, hmax⟩ : ∃ p, (Stack.ofRecords records last).foldlM record empty = .ok p ∧
      p.total = Samples.max := ⟨_, rfl, rfl⟩
  obtain ⟨q, hq, htotal, -, -, hread, hskipped⟩ := (consume_written records last hwritable).2 p hp
  exact ⟨hwritable, q, hq, htotal.trans hmax, hread, hskipped⟩

end Profile

end HotFrames

import HotFrames.Proofs.Source.Lines

/-!
# Lines in front of a fault

A source is read up to line feeds, so a fault strikes whatever was delivered behind the last of them
(`Source.exists_source_behind_fault`).  The lines up to there are given, and the fault stands in place of
the rest.  This rest may hold lines that a bare return has ended; they are lost together with the
unfinished one (`Source.textLines_upToTerminator`), one line for each return
(`Source.length_lines_upToTerminator`).
-/

namespace HotFrames

section DropRight

variable {α : Type} {p : α → Bool}

theorem rdropWhile_append_cons_of_neg {x : α} (h : p x = false) (before after : List α) :
    (before ++ x :: after).rdropWhile p = before ++ x :: after.rdropWhile p := by
  induction after using List.reverseRecOn with
  | nil => rw [List.rdropWhile_nil, List.rdropWhile_concat_neg _ _ _ (by simp [h])]
  | append_singleton after y ih =>
    rw [← List.cons_append, ← List.append_assoc, List.rdropWhile_concat, List.rdropWhile_concat, ih]
    split <;> simp

theorem rdropWhile_append (before after : List α) :
    (before ++ after).rdropWhile p =
      if after.rdropWhile p = [] then before.rdropWhile p else before ++ after.rdropWhile p := by
  rw [List.rdropWhile, List.reverse_append, List.dropWhile_append]
  simp only [List.isEmpty_iff, List.rdropWhile, List.reverse_eq_nil_iff]
  split <;> simp

end DropRight

namespace Source

/-- The bytes up to the last line feed. -/
def upToFeed (bytes : List UInt8) : List UInt8 := bytes.rdropWhile (· != lf)

/-- The bytes behind the last line feed. -/
def behindFeed (bytes : List UInt8) : List UInt8 := bytes.rtakeWhile (· != lf)

/-- The bytes up to the last terminator, which may be a bare return. -/
def upToTerminator (bytes : List UInt8) : List UInt8 :=
  bytes.rdropWhile fun b => b != lf && b != cr

/-- The texts of the lines of some bytes. -/
def textLines (bytes : List UInt8) : List String := (Newline.lines lf cr bytes).map lineText

variable {bytes : List UInt8}

theorem upToFeed_append (body tail : List UInt8) :
    upToFeed (body ++ lf :: tail) = body ++ lf :: upToFeed tail :=
  rdropWhile_append_cons_of_neg (by decide) body tail

theorem upToFeed_of_not_mem (h : lf ∉ bytes) : upToFeed bytes = [] := by
  rw [upToFeed, List.rdropWhile_eq_nil_iff]
  intro b hb
  simpa using fun he : b = lf => h (he ▸ hb)

theorem upToFeed_eq_nil_or_getLast? (bytes : List UInt8) :
    upToFeed bytes = [] ∨ (upToFeed bytes).getLast? = some lf := by
  refine (em (upToFeed bytes = [])).imp_right fun hne => ?_
  have hlast := List.rdropWhile_last_not (· != lf) bytes hne
  simp only [bne_iff_ne, ne_eq, not_not] at hlast
  rw [List.getLast?_eq_getLast_of_ne_nil hne]
  exact congrArg some hlast

/-! ## What is given -/

theorem lines_of_fault {s later : Source} {fault : Fault}
    (h : s.readUntil lf = (.error fault, later)) : s.lines = .error fault :: later.lines := by
  rw [lines]
  split <;> simp_all

/-- The lines up to the last line feed are given, and then the fault, and the source goes on with what
comes behind the fault. -/
theorem exists_source_behind_fault {s : Source} (h : 0 < s.capacity) {fault : Fault}
    {rest : List (Except Fault UInt8)} (hev : s.events = bytes.map .ok ++ .error fault :: rest) :
    ∃ later : Source, later.capacity = s.capacity ∧ later.events = rest ∧
      s.lines = (textLines (upToFeed bytes)).map .ok ++ .error fault :: later.lines := by
  -- Each chunk that is read leaves fewer bytes in front of the fault.
  induction hn : bytes.length using Nat.strongRecOn generalizing s bytes with
  | _ n ih =>
    obtain ⟨h1, h2, h3⟩ := readUntil_events lf s h
    rw [hev] at h1 h2
    by_cases hlf : lf ∈ bytes
    · obtain ⟨body, tail, rfl, hbody⟩ := List.eq_append_cons_of_mem hlf
      rw [List.map_append, List.map_cons, List.append_assoc, List.cons_append,
        takeUntil_append_stop hbody] at h1 h2
      obtain ⟨later, hcapacity, hevents, hlater⟩ :=
        ih tail.length (by simp [← hn]; omega) (h3 ▸ h) h2 rfl
      have htexts : textLines (upToFeed (body ++ lf :: tail)) =
          (chunkLines (body ++ [lf])).map lineText ++ textLines (upToFeed tail) := by
        rw [upToFeed_append, textLines, lines_append_chunk hbody, List.map_append]
        rfl
      refine ⟨later, hcapacity.trans h3, hevents, ?_⟩
      rw [lines_of_chunk (Prod.ext h1 rfl) (by simp), hlater, htexts, List.map_append,
        List.append_assoc, List.map_map]
      rfl
    · rw [takeUntil_append hlf] at h1 h2
      refine ⟨(s.readUntil lf).2, h3, h2, ?_⟩
      rw [lines_of_fault (Prod.ext h1 rfl), upToFeed_of_not_mem hlf]
      rfl

theorem exists_lines_of_fault {s : Source} (h : 0 < s.capacity) {fault : Fault}
    {rest : List (Except Fault UInt8)} (hev : s.events = bytes.map .ok ++ .error fault :: rest) :
    ∃ later : Source, s.lines = (textLines (upToFeed bytes)).map .ok ++ .error fault :: later.lines := by
  obtain ⟨later, -, -, hlines⟩ := exists_source_behind_fault h hev
  exact ⟨later, hlines⟩

/-! ## What is lost -/

theorem not_mem_behindFeed (bytes : List UInt8) : lf ∉ behindFeed bytes := fun h => by
  simpa using List.mem_rtakeWhile_imp h

/-- Without line feeds there is one finished line for each return. -/
theorem length_lines_upToTerminator (h : lf ∉ bytes) :
    (textLines (upToTerminator bytes)).length = bytes.count cr := by
  induction hn : bytes.length using Nat.strongRecOn generalizing bytes with
  | _ n ih =>
    by_cases hcr : cr ∈ bytes
    · obtain ⟨body, tail, rfl, hbody⟩ := List.eq_append_cons_of_mem hcr
      have htail : lf ∉ tail := fun hmem => h (by simp [hmem])
      have hunbroken : Newline.Unbroken lf cr body := ⟨fun hmem => h (by simp [hmem]), hbody⟩
      have hhead : (upToTerminator tail).head? ≠ some lf := fun hhead =>
        htail ((List.rdropWhile_prefix _ _).subset (List.mem_of_head? hhead))
      have hrest := ih tail.length (by simp [← hn]; omega) htail rfl
      rw [textLines, List.length_map] at hrest ⊢
      rw [upToTerminator, rdropWhile_append_cons_of_neg (by decide), ← upToTerminator,
        Newline.lines_append_cr hunbroken hhead, List.length_cons, hrest, List.count_append,
        List.count_eq_zero.2 hbody, List.count_cons_self, Nat.zero_add]
    · have hnone : upToTerminator bytes = [] := by
        rw [upToTerminator, List.rdropWhile_eq_nil_iff]
        intro b hb
        have hb1 : b ≠ lf := fun he => h (he ▸ hb)
        have hb2 : b ≠ cr := fun he => hcr (he ▸ hb)
        simp [hb1, hb2]
      rw [hnone, List.count_eq_zero.2 hcr]
      rfl

theorem upToTerminator_eq (bytes : List UInt8) :
    upToTerminator bytes = upToFeed bytes ++ upToTerminator (behindFeed bytes) := by
  have hfeed : upToTerminator (upToFeed bytes) = upToFeed bytes := by
    rw [upToTerminator, List.rdropWhile_eq_self_iff]
    intro hne
    have hlast := (upToFeed_eq_nil_or_getLast? bytes).resolve_left hne
    rw [List.getLast?_eq_getLast_of_ne_nil hne, Option.some.injEq] at hlast
    rw [hlast]
    decide
  have hsplit : bytes = upToFeed bytes ++ behindFeed bytes :=
    (List.rdropWhile_append_rtakeWhile).symm
  conv_lhs => rw [hsplit, upToTerminator, rdropWhile_append]
  split
  · next hnone => rw [← upToTerminator, hfeed, upToTerminator, hnone, List.append_nil]
  · rfl

/-- The finished lines are those up to the last line feed and behind them those that end with a bare
return. -/
theorem textLines_upToTerminator (bytes : List UInt8) :
    textLines (upToTerminator bytes) =
      textLines (upToFeed bytes) ++ textLines (upToTerminator (behindFeed bytes)) := by
  have hlast := upToFeed_eq_nil_or_getLast? bytes
  have hend : Newline.Ended lf cr (upToFeed bytes) := hlast.imp_right .inl
  have hleft : Newline.leftBehind lf cr (upToFeed bytes) (upToTerminator (behindFeed bytes)) =
      upToTerminator (behindFeed bytes) := by
    rw [Newline.leftBehind, if_neg]
    rintro ⟨hcr, -⟩
    rcases hlast with hnil | hlf
    · rw [hnil] at hcr
      cases hcr
    · rw [hlf] at hcr
      exact absurd hcr (by decide)
  rw [upToTerminator_eq, textLines, Newline.lines_append (by decide) hend, hleft, List.map_append]
  rfl

end Source

end HotFrames

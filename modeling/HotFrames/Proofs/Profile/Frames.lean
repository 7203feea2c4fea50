import HotFrames.Proofs.Profile.Runs
import HotFrames.Proofs.Source.Lines
import HotFrames.Proofs.Stack.Grammar

/-!
# Where the frames of a profile come from

A frame of a table stands in a stack that a call of the run offered
(`Profile.exists_call_of_mem_table`).  If the run only consumes sources, that stack stands on a line
of one of them, and neither a line nor what is read from it holds a line feed
(`Profile.not_mem_frame_of_consumed`).  This needs nothing of the bytes, of the buffer or of the
faults of a source: a chunk ends at its first line feed, and decoding makes none.
-/

namespace HotFrames

namespace Source

open Utf8

/-- A chunk holds the byte that ends it nowhere else. -/
theorem exists_body_of_readUntil (stop : UInt8) (s : Source) {chunk : List UInt8}
    (h : (s.readUntil stop).1 = .ok chunk) :
    ∃ body, stop ∉ body ∧ (chunk = body ∨ chunk = body ++ [stop]) := by
  fun_induction readUntil stop s generalizing chunk with
  | case1 s b bs hb found rest hw =>
    obtain rfl := Except.ok.inj h
    have hfound := List.head?_dropWhile_not (· != stop) s.buffer
    rw [hw] at hfound
    obtain rfl : found = stop := by simpa using hfound
    refine ⟨s.buffer.takeWhile (· != found), fun hmem => ?_, .inr rfl⟩
    simpa using List.mem_takeWhile_imp hmem
  | case2 s b bs hb hw result later hr ih =>
    -- The buffer holds no end of a chunk, so it is the front of what is read on.
    have hbuffer : stop ∉ s.buffer := fun hmem => by
      simpa using List.dropWhile_eq_nil_iff.1 hw stop hmem
    cases hresult : result with
    | error f => rw [hresult] at h; cases h
    | ok more =>
      rw [hresult] at h
      obtain rfl := Except.ok.inj h
      have hchunk : (readUntil stop { s with buffer := [] }).1 = .ok more := by rw [hr, hresult]
      obtain ⟨body, hbody, hmore⟩ := ih hchunk
      refine ⟨s.buffer ++ body, by simp [hbuffer, hbody], ?_⟩
      obtain rfl | rfl := hmore
      · exact .inl rfl
      · exact .inr (List.append_assoc _ _ _).symm
  | case3 s hb hd => exact ⟨[], List.not_mem_nil, .inl (Except.ok.inj h).symm⟩
  | case4 s hb f rest hd hf ih => exact ih h
  | case5 s hb f rest hd hf => cases h
  | case6 s hb rest hd ih => exact ih h
  | case7 s hb b bs rest hd hc => exact ⟨[], List.not_mem_nil, .inl (Except.ok.inj h).symm⟩
  | case8 s hb b bs rest hd hc ih => exact ih h

theorem mem_of_mem_dropTerminator {chunk : List UInt8} {b : UInt8} (h : b ∈ dropTerminator chunk) :
    b ∈ chunk.dropLast ∨ b ∈ chunk ∧ chunk.getLast? ≠ some lf := by
  unfold dropTerminator at h
  split at h
  · dsimp only at h
    split at h
    · exact .inl (List.mem_of_mem_dropLast h)
    · exact .inl h
  · next hlf =>
    split at h
    · exact .inl h
    · exact .inr ⟨h, hlf⟩

theorem not_mem_dropTerminator {s : Source} {chunk : List UInt8}
    (h : (s.readUntil lf).1 = .ok chunk) : lf ∉ dropTerminator chunk := by
  intro hmem
  obtain ⟨body, hbody, rfl | rfl⟩ := exists_body_of_readUntil lf s h
  · obtain hmem | ⟨hmem, -⟩ := mem_of_mem_dropTerminator hmem
    · exact hbody (List.mem_of_mem_dropLast hmem)
    · exact hbody hmem
  · obtain hmem | ⟨-, hlast⟩ := mem_of_mem_dropTerminator hmem
    · exact hbody (by simpa using hmem)
    · exact hlast (by simp)

/-- No line holds a line feed. -/
theorem not_mem_of_mem_lines {s : Source} {line : String} (h : .ok line ∈ s.lines) :
    '\n' ∉ line.toList := by
  fun_induction lines s with
  | case1 s later hchunk => cases h
  | case2 s b bs later hchunk ih =>
    obtain hmem | hrest := List.mem_append.1 h
    · obtain ⟨bytes, hbytes, hline⟩ := List.mem_map.1 hmem
      obtain rfl := Except.ok.inj hline
      intro hfeed
      rw [lineText, String.toList_ofList] at hfeed
      obtain ⟨byte, hbyte, hvalue⟩ := mem_of_mem_decodeLossy hfeed (by decide)
      obtain rfl : byte = lf := UInt8.toNat_inj.1 hvalue
      exact not_mem_dropTerminator (congrArg Prod.fst hchunk) (mem_of_mem_splitOn hbytes hbyte)
    · exact ih hrest
  | case3 s f later hchunk ih =>
    obtain hmem | hrest := List.mem_cons.1 h
    · cases hmem
    · exact ih hrest

end Source

namespace Stack

/-- The frames on a line hold nothing but what stands on the line. -/
theorem mem_of_mem_frame {line : String} {s : Stack} (h : parse? line = some s) {frame : String}
    (hframe : frame ∈ s.frames) {c : Char} (hc : c ∈ frame.toList) : c ∈ line.toList := by
  obtain ⟨joined, token, ⟨htrim, -⟩, -, hframes⟩ := parse?_eq_some_iff.1 h
  rw [← hframes] at hframe
  obtain ⟨part, hpart, rfl⟩ := List.mem_map.1 hframe
  rw [String.toList_ofList] at hc
  obtain ⟨before, after, hline, -, -⟩ := Blank.exists_trim line.toList
  have hjoined : c ∈ Blank.trim line.toList := by
    rw [htrim]
    exact List.mem_append_left _ (mem_of_mem_splitOn hpart hc)
  rw [hline]
  exact List.mem_append_right _ (List.mem_append_left _ hjoined)

end Stack

namespace Profile

/-! ## Offered stacks -/

/-- Whether a call offers a stack to the profile. -/
def Call.Offers (s : Stack) : Call → Prop
  | record t => t = s
  | recordLine line => Stack.parse? line = some s
  | consume items => ∃ line, .ok line ∈ items ∧ Stack.parse? line = some s

theorem parse?_of_mem_recordedOfLine {p : Profile} {line : String} {s : Stack}
    (h : s ∈ p.recordedOfLine line) : Stack.parse? line = some s := by
  unfold recordedOfLine at h
  split at h
  · exact Option.mem_toList.1 h
  · cases h

theorem exists_line_of_mem_recordedOfLines {p : Profile} {items : List (Except Fault String)}
    {s : Stack} (h : s ∈ p.recordedOfLines items) :
    ∃ line, .ok line ∈ items ∧ Stack.parse? line = some s := by
  induction items generalizing p with
  | nil => cases h
  | cons item items ih =>
    cases item with
    | error f => cases h
    | ok line =>
      rw [recordedOfLines] at h
      obtain hline | hrest := List.mem_append.1 h
      · exact ⟨line, List.mem_cons_self, parse?_of_mem_recordedOfLine hline⟩
      · split at hrest
        · obtain ⟨line', hmem, hparse⟩ := ih hrest
          exact ⟨line', List.mem_cons_of_mem _ hmem, hparse⟩
        · cases hrest

/-- A run records only what its calls offer. -/
theorem exists_call_of_mem_recorded {p : Profile} {calls : List Call} {s : Stack}
    (h : s ∈ p.recorded calls) : ∃ call ∈ calls, call.Offers s := by
  induction calls generalizing p with
  | nil => cases h
  | cons call calls ih =>
    rw [recorded] at h
    obtain hcall | hrest := List.mem_append.1 h
    · refine ⟨call, List.mem_cons_self, ?_⟩
      cases call with
      | record t =>
        rw [Call.recorded] at hcall
        split at hcall
        · exact (List.mem_singleton.1 hcall).symm
        · cases hcall
      | recordLine line => exact parse?_of_mem_recordedOfLine hcall
      | consume items => exact exists_line_of_mem_recordedOfLines hcall
    · obtain ⟨call', hmem, hoffers⟩ := ih hrest
      exact ⟨call', List.mem_cons_of_mem _ hmem, hoffers⟩

/-- A scope counts a stack for one of its frames, or for the empty name. -/
theorem Scope.mem_frames_of_frame? {scope : Scope} {s : Stack} {frame : String}
    (h : scope.frame? s = some frame) : frame ∈ s.frames ∨ frame = "" := by
  cases scope with
  | leaf =>
    obtain rfl := Option.some.inj h
    cases hlast : s.frames.getLast? with
    | none => exact .inr rfl
    | some last => exact .inl (List.mem_of_getLast? hlast)
  | within n => exact .inl (List.mem_filter.1 (List.mem_of_getLast? h)).1

/-- A frame of a table stands in a stack that was offered, if it is not the empty name. -/
theorem exists_call_of_mem_table {calls : List Call} {scope : Scope} {frame : String}
    (h : frame ∈ ((empty.run calls).table scope).frames) :
    frame = "" ∨ ∃ call ∈ calls, ∃ s, call.Offers s ∧ frame ∈ s.frames := by
  rw [(tallies_run calls).frames scope, List.mem_eraseDups] at h
  obtain ⟨s, hs, hframe⟩ := List.mem_filterMap.1 h
  obtain ⟨call, hcall, hoffers⟩ := exists_call_of_mem_recorded hs
  obtain hmem | hempty := Scope.mem_frames_of_frame? hframe
  · exact .inr ⟨call, hcall, s, hoffers, hmem⟩
  · exact .inl hempty

/-- No frame holds a line feed if only sources were consumed. -/
theorem not_mem_frame_of_consumed {sources : List Source} {scope : Scope} {frame : String}
    (h : frame ∈ ((empty.run (sources.map fun s => .consume s.lines)).table scope).frames) :
    '\n' ∉ frame.toList := by
  obtain rfl | ⟨call, hcall, s, hoffers, hframe⟩ := exists_call_of_mem_table h
  · exact List.not_mem_nil
  · obtain ⟨source, -, rfl⟩ := List.mem_map.1 hcall
    obtain ⟨line, hline, hparse⟩ := hoffers
    exact fun hfeed => Source.not_mem_of_mem_lines hline (Stack.mem_of_mem_frame hparse hframe hfeed)

end Profile

end HotFrames

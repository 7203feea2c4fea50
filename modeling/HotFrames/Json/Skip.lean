import HotFrames.Json.Number

/-!
# Passing over a JSON value

A value that nobody wants is passed over without being built. What is kept is the list of brackets
that are still open, so that values may be nested to any depth.
-/

namespace HotFrames.Json

/-- The rest of a word after its first letter. -/
def skipWord : List UInt8 → List UInt8 → Except Error (List UInt8)
  | [], s => .ok s
  | _ :: _, [] => .error .ended
  | c :: word, b :: rest => if b = c then skipWord word rest else .error .malformed

/-- The bytes of an ASCII word. -/
def wordBytes (w : String) : List UInt8 := w.toList.map byte

/-- The colon between a name and its value. -/
def skipColon (s : List UInt8) : Except Error (List UInt8) :=
  match skipSpace s with
  | [] => .error .ended
  | b :: rest => if b = byte ':' then .ok rest else .error .malformed

/-- Passes over the name of a member and its colon. -/
def skipName (s : List UInt8) : Except Error (List UInt8) :=
  match skipSpace s with
  | [] => .error .ended
  | b :: rest =>
    if b = byte '"' then
      match skipText rest with
      | .error e => .error e
      | .ok rest => skipColon rest
    else .error .malformed

/-- Passes over a value that is neither an array nor an object, given its first byte and what
follows it. -/
def skipScalar (b : UInt8) (rest : List UInt8) : Except Error (List UInt8) :=
  if b = byte 'n' then skipWord (wordBytes "ull") rest
  else if b = byte 't' then skipWord (wordBytes "rue") rest
  else if b = byte 'f' then skipWord (wordBytes "alse") rest
  else if b = byte '-' then skipNumber rest
  else if isDigit b then skipNumber (b :: rest)
  else if b = byte '"' then skipText rest
  else .error .malformed

theorem length_skipWord_le {word s rest : List UInt8} (h : skipWord word s = .ok rest) :
    rest.length ≤ s.length := by
  fun_induction skipWord word s with
  | case1 => cases h; exact Nat.le_refl _
  | case2 => cases h
  | case3 => exact Nat.le_succ_of_le (‹skipWord _ _ = _ → _› h)
  | case4 => cases h

theorem length_skipColon {s rest : List UInt8} (h : skipColon s = .ok rest) :
    rest.length < s.length := by
  have hs := length_skipSpace_le s
  unfold skipColon at h
  repeat' split at h
  all_goals cases h
  rw [‹skipSpace s = _›, List.length_cons] at hs
  omega

theorem length_skipName {s rest : List UInt8} (h : skipName s = .ok rest) :
    rest.length < s.length := by
  have hs := length_skipSpace_le s
  unfold skipName at h
  split at h
  · cases h
  · next hb =>
    rw [hb, List.length_cons] at hs
    repeat' split at h
    · cases h
    · have := length_skipText ‹skipText _ = _›
      have := length_skipColon h
      omega
    · cases h

theorem length_skipScalar_le {b : UInt8} {s rest : List UInt8} (h : skipScalar b s = .ok rest) :
    rest.length ≤ s.length := by
  unfold skipScalar at h
  repeat' split at h
  · exact length_skipWord_le h
  · exact length_skipWord_le h
  · exact length_skipWord_le h
  · exact Nat.le_of_lt (length_skipNumber h)
  · exact Nat.le_of_lt_succ (length_skipNumber h)
  · exact Nat.le_of_lt (length_skipText h)
  · cases h

/-- An opening bracket that waits for its closing one. -/
inductive Bracket
  | square
  | curly
  deriving DecidableEq, Repr

namespace Bracket

/-- The closing bracket. -/
def close : Bracket → UInt8
  | square => byte ']'
  | curly => byte '\x7d'

end Bracket

mutual

/-- Passes over a value and then over what closes the open brackets, innermost first. -/
def skipValue (outer : List Bracket) (s : List UInt8) : Except Error (List UInt8) :=
  match _hs : skipSpace s with
  | [] => .error .ended
  | b :: rest =>
    if b = byte '[' then
      match _hr : skipSpace rest with
      | [] => .error .ended
      | c :: later =>
        if c = byte ']' then skipAfter outer later
        else skipValue (.square :: outer) rest
    else if b = byte '\x7b' then
      match _hr : skipSpace rest with
      | [] => .error .ended
      | c :: later =>
        if c = byte '\x7d' then skipAfter outer later
        else
          match _hn : skipName rest with
          | .error e => .error e
          | .ok value => skipValue (.curly :: outer) value
    else
      match _hv : skipScalar b rest with
      | .error e => .error e
      | .ok later => skipAfter outer later
termination_by s.length
decreasing_by
  all_goals
    have h1 := length_skipSpace_le s
    have h2 := length_skipSpace_le rest
    rw [_hs, List.length_cons] at h1
  · rw [_hr, List.length_cons] at h2; omega
  · omega
  · rw [_hr, List.length_cons] at h2; omega
  · have := length_skipName _hn; omega
  · have := length_skipScalar_le _hv; omega

/-- Passes over what follows a value inside open brackets. -/
def skipAfter (outer : List Bracket) (s : List UInt8) : Except Error (List UInt8) :=
  match outer with
  | [] => .ok s
  | bracket :: outer =>
    match _hs : skipSpace s with
    | [] => .error .ended
    | b :: rest =>
      if b = byte ',' then
        match bracket with
        | .square => skipValue (.square :: outer) rest
        | .curly =>
          match _hn : skipName rest with
          | .error e => .error e
          | .ok value => skipValue (.curly :: outer) value
      else if b = bracket.close then skipAfter outer rest
      else .error .malformed
termination_by s.length
decreasing_by
  all_goals
    have h1 := length_skipSpace_le s
    rw [_hs, List.length_cons] at h1
  · omega
  · have := length_skipName _hn; omega
  · omega

end

/-- Passing over a value takes at least one byte, and passing over what follows a value none or
more. -/
theorem length_skipValue_and_skipAfter (s : List UInt8) :
    (∀ outer rest, skipValue outer s = .ok rest → rest.length < s.length) ∧
      (∀ outer rest, skipAfter outer s = .ok rest → rest.length ≤ s.length) := by
  have ih := fun t (_ : t.length < s.length) => length_skipValue_and_skipAfter t
  have hs := length_skipSpace_le s
  constructor
  · intro outer rest h
    rw [skipValue] at h
    split at h
    · cases h
    · next b more hb =>
      have hm := length_skipSpace_le more
      rw [hb, List.length_cons] at hs
      repeat' split at h
      · cases h
      · next later hl _ =>
        rw [hl, List.length_cons] at hm
        have := (ih later (by omega)).2 _ _ h
        omega
      · have := (ih more (by omega)).1 _ _ h
        omega
      · cases h
      · next later hl _ =>
        rw [hl, List.length_cons] at hm
        have := (ih later (by omega)).2 _ _ h
        omega
      · cases h
      · next value hn =>
        have := length_skipName hn
        have := (ih value (by omega)).1 _ _ h
        omega
      · cases h
      · next later hv =>
        have := length_skipScalar_le hv
        have := (ih later (by omega)).2 _ _ h
        omega
  · intro outer rest h
    rw [skipAfter.eq_def] at h
    split at h
    · cases h
      exact Nat.le_refl _
    · split at h
      · cases h
      · next b more hb =>
        rw [hb, List.length_cons] at hs
        repeat' split at h
        · have := (ih more (by omega)).1 _ _ h
          omega
        · cases h
        · next value hn =>
          have := length_skipName hn
          have := (ih value (by omega)).1 _ _ h
          omega
        · have := (ih more (by omega)).2 _ _ h
          omega
        · cases h
termination_by s.length

theorem length_skipValue {outer : List Bracket} {s rest : List UInt8}
    (h : skipValue outer s = .ok rest) : rest.length < s.length :=
  (length_skipValue_and_skipAfter s).1 outer rest h

end HotFrames.Json

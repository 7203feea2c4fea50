import HotFrames.Json.Error
import HotFrames.Text.Utf8

/-!
# Reading the pieces of a JSON text

The text is a list of bytes. Each reader takes what it needs from the front and gives the rest.
Texts and numbers are read in two ways: for their value, and only to pass over them. Passing over a
text checks its escapes but neither its encoding nor the pairing of surrogates.
-/

namespace HotFrames.Json

/-- The result of a reader: the value and the bytes that follow it. -/
abbrev Read (α : Type) := Except Error (α × List UInt8)

/-- The code of an ASCII character. -/
def byte (c : Char) : UInt8 := c.toNat.toUInt8

/-- Whether a byte is JSON white space. -/
def isSpace (b : UInt8) : Bool := b = 0x20 || b = 0x09 || b = 0x0A || b = 0x0D

/-- The bytes after white space. -/
def skipSpace (s : List UInt8) : List UInt8 := s.dropWhile isSpace

theorem length_skipSpace_le (s : List UInt8) : (skipSpace s).length ≤ s.length :=
  (List.dropWhile_suffix _).length_le

/-! ### Texts -/

/-- The value of a hexadecimal digit of either case. -/
def hexValue? (b : UInt8) : Option Nat :=
  if 0x30 ≤ b ∧ b ≤ 0x39 then some (b.toNat - 0x30)
  else if 0x61 ≤ b ∧ b ≤ 0x66 then some (b.toNat - 0x61 + 10)
  else if 0x41 ≤ b ∧ b ≤ 0x46 then some (b.toNat - 0x41 + 10)
  else none

/-- Four hexadecimal digits. -/
def hexUnit : List UInt8 → Read Nat
  | a :: b :: c :: d :: rest =>
    match hexValue? a, hexValue? b, hexValue? c, hexValue? d with
    | some a, some b, some c, some d => .ok (((a * 16 + b) * 16 + c) * 16 + d, rest)
    | _, _, _, _ => .error .malformed
  | _ => .error .ended

/-- The character of an escape of one letter. -/
def letterEscape? (b : UInt8) : Option Char :=
  if b = byte '"' then some '"'
  else if b = byte '\\' then some '\\'
  else if b = byte '/' then some '/'
  else if b = byte 'b' then some '\x08'
  else if b = byte 'f' then some '\x0C'
  else if b = byte 'n' then some '\n'
  else if b = byte 'r' then some '\r'
  else if b = byte 't' then some '\t'
  else none

/-- The low surrogate that has to follow a high one, as another escape. -/
def lowSurrogate : List UInt8 → Read Nat
  | [] => .error .ended
  | b :: rest =>
    if b ≠ byte '\\' then .error .malformed
    else
      match rest with
      | [] => .error .ended
      | b :: rest =>
        if b ≠ byte 'u' then .error .malformed
        else
          match hexUnit rest with
          | .error e => .error e
          | .ok (n, rest) =>
            if 0xDC00 ≤ n ∧ n ≤ 0xDFFF then .ok (n, rest) else .error .malformed

/-- A character given by one escape of four digits, or by two that form a surrogate pair. -/
def unicodeEscape (s : List UInt8) : Read Char :=
  match hexUnit s with
  | .error e => .error e
  | .ok (n, rest) =>
    if 0xDC00 ≤ n ∧ n ≤ 0xDFFF then .error .malformed
    else if 0xD800 ≤ n ∧ n ≤ 0xDBFF then
      match lowSurrogate rest with
      | .error e => .error e
      | .ok (m, rest) => .ok (Char.ofNat (0x10000 + (n - 0xD800) * 0x400 + (m - 0xDC00)), rest)
    else .ok (Char.ofNat n, rest)

/-- The character of an escape, after its backslash. -/
def readEscape : List UInt8 → Read Char
  | [] => .error .ended
  | b :: rest =>
    match letterEscape? b with
    | some c => .ok (c, rest)
    | none => if b = byte 'u' then unicodeEscape rest else .error .malformed

theorem length_hexUnit {s rest : List UInt8} {n : Nat} (h : hexUnit s = .ok (n, rest)) :
    rest.length < s.length := by
  unfold hexUnit at h
  repeat' split at h
  all_goals cases h
  simp only [List.length_cons]
  omega

theorem length_lowSurrogate {s rest : List UInt8} {n : Nat}
    (h : lowSurrogate s = .ok (n, rest)) : rest.length < s.length := by
  unfold lowSurrogate at h
  repeat' split at h
  all_goals cases h
  have := length_hexUnit ‹hexUnit _ = _›
  simp only [List.length_cons]
  omega

theorem length_unicodeEscape {s rest : List UInt8} {c : Char}
    (h : unicodeEscape s = .ok (c, rest)) : rest.length < s.length := by
  unfold unicodeEscape at h
  repeat' split at h
  all_goals simp only [reduceCtorEq, Except.ok.injEq, Prod.mk.injEq] at h
  · have := length_hexUnit ‹hexUnit _ = _›
    have := length_lowSurrogate ‹lowSurrogate _ = _›
    rw [← h.2]
    omega
  · rw [← h.2]
    exact length_hexUnit ‹hexUnit _ = _›

theorem length_readEscape {s rest : List UInt8} {c : Char}
    (h : readEscape s = .ok (c, rest)) : rest.length < s.length := by
  unfold readEscape at h
  split at h
  · cases h
  · split at h
    · cases h
      exact Nat.lt_succ_self _
    · split at h
      · have := length_unicodeEscape h
        simp only [List.length_cons]
        omega
      · cases h

/-- The bytes of a text after its opening quote, with the escapes carried out, and what follows
the closing quote. -/
def textBytes (s : List UInt8) : Read (List UInt8) :=
  match s with
  | [] => .error .ended
  | b :: rest =>
    if b = byte '"' then .ok ([], rest)
    else if b = byte '\\' then
      match _h : readEscape rest with
      | .error e => .error e
      | .ok (c, later) =>
        match textBytes later with
        | .error e => .error e
        | .ok (bytes, later) => .ok (String.utf8EncodeChar c ++ bytes, later)
    else if b < 0x20 then .error .malformed
    else
      match textBytes rest with
      | .error e => .error e
      | .ok (bytes, later) => .ok (b :: bytes, later)
termination_by s.length
decreasing_by
  · have := length_readEscape _h; simp; omega
  · simp

/-- A text after its opening quote. -/
def readText (s : List UInt8) : Read String :=
  match textBytes s with
  | .error e => .error e
  | .ok (bytes, rest) =>
    match Utf8.decode? bytes with
    | some cs => .ok (String.ofList cs, rest)
    | none => .error .malformed

/-- Passes over an escape, after its backslash. -/
def skipEscape : List UInt8 → Except Error (List UInt8)
  | [] => .error .ended
  | b :: rest =>
    if (letterEscape? b).isSome then .ok rest
    else if b = byte 'u' then
      match hexUnit rest with
      | .error e => .error e
      | .ok (_, rest) => .ok rest
    else .error .malformed

theorem length_skipEscape {s rest : List UInt8} (h : skipEscape s = .ok rest) :
    rest.length < s.length := by
  unfold skipEscape at h
  repeat' split at h
  all_goals cases h
  · exact Nat.lt_succ_self _
  · have := length_hexUnit ‹hexUnit _ = _›
    simp only [List.length_cons]
    omega

/-- Passes over a text, after its opening quote. -/
def skipText (s : List UInt8) : Except Error (List UInt8) :=
  match s with
  | [] => .error .ended
  | b :: rest =>
    if b = byte '"' then .ok rest
    else if b = byte '\\' then
      match _h : skipEscape rest with
      | .error e => .error e
      | .ok later => skipText later
    else if b < 0x20 then .error .malformed
    else skipText rest
termination_by s.length
decreasing_by
  · have := length_skipEscape _h; simp; omega
  · simp

theorem length_textBytes {s bytes rest : List UInt8} (h : textBytes s = .ok (bytes, rest)) :
    rest.length < s.length := by
  fun_induction textBytes s generalizing bytes rest with
  | case1 => cases h
  | case2 => cases h; simp
  | case3 => cases h
  | case4 => cases h
  | case5 =>
    cases h
    have := length_readEscape ‹readEscape _ = _›
    have := ‹∀ {_ _}, textBytes _ = _ → _› ‹textBytes _ = _›
    simp only [List.length_cons]
    omega
  | case6 => cases h
  | case7 => cases h
  | case8 =>
    cases h
    have := ‹∀ {_ _}, textBytes _ = _ → _› ‹textBytes _ = _›
    simp only [List.length_cons]
    omega

theorem length_readText {s rest : List UInt8} {t : String} (h : readText s = .ok (t, rest)) :
    rest.length < s.length := by
  unfold readText at h
  repeat' split at h
  all_goals cases h
  exact length_textBytes ‹textBytes _ = _›

theorem length_skipText {s rest : List UInt8} (h : skipText s = .ok rest) :
    rest.length < s.length := by
  fun_induction skipText s with
  | case1 => cases h
  | case2 => cases h; simp
  | case3 => cases h
  | case4 =>
    have := length_skipEscape ‹skipEscape _ = _›
    have := ‹skipText _ = _ → _› h
    simp only [List.length_cons]
    omega
  | case5 => cases h
  | case6 =>
    have := ‹skipText _ = _ → _› h
    simp only [List.length_cons]
    omega

end HotFrames.Json

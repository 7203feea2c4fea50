import HotFrames.Json.Skip

/-!
# Readers of JSON values

A reader takes a value from the front of a text. It takes at least one byte with it, so that a list
can be read item after item to its end. There are readers for texts, doubles, natural numbers and
lists. White space before a value belongs to it.
-/

namespace HotFrames.Json

/-- How a value of type `α` is taken from the front of a text. -/
structure Reader (α : Type) where
  /-- The value at the front, and what follows it. -/
  read : List UInt8 → Read α
  /-- A value takes at least one byte. -/
  length_lt : ∀ {s rest : List UInt8} {a : α}, read s = .ok (a, rest) → rest.length < s.length

namespace Reader

variable {α β : Type}

/-- Reads a value and applies a function to it. -/
def map (f : α → β) (r : Reader α) : Reader β where
  read s :=
    match r.read s with
    | .error e => .error e
    | .ok (a, rest) => .ok (f a, rest)
  length_lt h := by
    split at h
    · cases h
    · next hr =>
      cases h
      exact r.length_lt hr

/-- Reads a value that has an image under a function. One without is not JSON in this place. -/
def filterMap (f : α → Option β) (r : Reader α) : Reader β where
  read s :=
    match r.read s with
    | .error e => .error e
    | .ok (a, rest) =>
      match f a with
      | some b => .ok (b, rest)
      | none => .error .malformed
  length_lt h := by
    split at h
    · cases h
    · next hr =>
      split at h
      · cases h
        exact r.length_lt hr
      · cases h

/-- Reads a whole text that holds one value, with nothing but white space after it. -/
def readWhole (r : Reader α) (s : List UInt8) : Except Error α :=
  match r.read s with
  | .error e => .error e
  | .ok (value, rest) => if (skipSpace rest).isEmpty then .ok value else .error .malformed

end Reader

/-! ### Mismatches -/

/-- What kind of value begins with a byte that is followed by `rest`. Numbers and texts are read to
their end for it. -/
def readFound (b : UInt8) (rest : List UInt8) : Except Error Found :=
  if b = byte 'n' then (skipWord (wordBytes "ull") rest).map fun _ => .null
  else if b = byte 't' then (skipWord (wordBytes "rue") rest).map fun _ => .bool true
  else if b = byte 'f' then (skipWord (wordBytes "alse") rest).map fun _ => .bool false
  else if b = byte '"' then (readText rest).map fun r => .string r.1
  else if b = byte '[' then .ok .sequence
  else if b = byte '\x7b' then .ok .map
  else
    match readSignedNumber? (b :: rest) with
    | some number => number.map fun r => r.1.found
    | none => .error .malformed

/-- The error for a value of another kind than the wanted one. -/
def mismatch (wanted : String) (b : UInt8) (rest : List UInt8) : Error :=
  match readFound b rest with
  | .ok found => .mismatch found wanted
  | .error e => e

/-! ### Texts and numbers -/

/-- A text. -/
def readString (s : List UInt8) : Read String :=
  match skipSpace s with
  | [] => .error .ended
  | b :: rest =>
    if b = byte '"' then readText rest else .error (mismatch "a string" b rest)

/-- A double, from any number. -/
def readReal (s : List UInt8) : Read Binary64 :=
  match skipSpace s with
  | [] => .error .ended
  | b :: rest =>
    match readSignedNumber? (b :: rest) with
    | some (.ok (number, rest)) => .ok (number.toBinary64, rest)
    | some (.error e) => .error e
    | none => .error (mismatch "f64" b rest)

theorem length_readString {s rest : List UInt8} {t : String}
    (h : readString s = .ok (t, rest)) : rest.length < s.length := by
  have hs := length_skipSpace_le s
  unfold readString at h
  split at h
  · cases h
  · next hb =>
    rw [hb, List.length_cons] at hs
    split at h
    · have := length_readText h
      omega
    · cases h

theorem length_readReal {s rest : List UInt8} {x : Binary64}
    (h : readReal s = .ok (x, rest)) : rest.length < s.length := by
  have hs := length_skipSpace_le s
  unfold readReal at h
  split at h
  · cases h
  · next hb =>
    rw [hb] at hs
    split at h
    · next hn =>
      cases h
      exact Nat.lt_of_lt_of_le (length_readSignedNumber? hn) hs
    · cases h
    · cases h

/-- Reads a text. -/
def Reader.string : Reader String := ⟨readString, length_readString⟩

/-- Reads a double, from any number. -/
def Reader.real : Reader Binary64 := ⟨readReal, length_readReal⟩

/-- Reads a natural number in plain digits below a bound. -/
def Reader.natural (bound : Nat) : Reader Nat := ⟨readNatural bound, length_readNatural⟩

/-! ### Lists -/

/-- The start of the next item of an array, none at the closing bracket. -/
def nextItem (first : Bool) (s : List UInt8) : Except Error (Option (List UInt8)) :=
  match skipSpace s with
  | [] => .error .ended
  | b :: rest =>
    if b = byte ']' then .ok none
    else if first then .ok (some (b :: rest))
    else if b = byte ',' then
      match skipSpace rest with
      | [] => .error .ended
      | c :: later => if c = byte ']' then .error .malformed else .ok (some (c :: later))
    else .error .malformed

theorem length_nextItem_le {first : Bool} {s start : List UInt8}
    (h : nextItem first s = .ok (some start)) : start.length ≤ s.length := by
  have hs := length_skipSpace_le s
  unfold nextItem at h
  split at h
  · cases h
  · next b rest hb =>
    rw [hb] at hs
    have hr := length_skipSpace_le rest
    repeat' split at h
    · cases h
    · cases h
      exact hs
    · cases h
    · cases h
    · next hc _ =>
      cases h
      rw [hc] at hr
      exact Nat.le_trans hr (Nat.le_trans (Nat.le_succ _) hs)
    · cases h

/-- Passes over the closing bracket of an array. -/
def closeArray (s : List UInt8) : Except Error (List UInt8) :=
  match skipSpace s with
  | [] => .error .ended
  | b :: rest => if b = byte ']' then .ok rest else .error .malformed

theorem length_closeArray {s rest : List UInt8} (h : closeArray s = .ok rest) :
    rest.length < s.length := by
  have hs := length_skipSpace_le s
  unfold closeArray at h
  repeat' split at h
  all_goals cases h
  rw [‹skipSpace s = _›, List.length_cons] at hs
  omega

/-- The items of an array up to its closing bracket. -/
def readItems {α : Type} (item : Reader α) (first : Bool) (s : List UInt8) : Read (List α) :=
  match _hn : nextItem first s with
  | .error e => .error e
  | .ok none => .ok ([], s)
  | .ok (some start) =>
    match _hi : item.read start with
    | .error e => .error e
    | .ok (a, rest) =>
      match readItems item false rest with
      | .error e => .error e
      | .ok (as, rest) => .ok (a :: as, rest)
termination_by s.length
decreasing_by exact Nat.lt_of_lt_of_le (item.length_lt _hi) (length_nextItem_le _hn)

theorem length_readItems_le {α : Type} {item : Reader α} {first : Bool} {s rest : List UInt8}
    {as : List α} (h : readItems item first s = .ok (as, rest)) : rest.length ≤ s.length := by
  fun_induction readItems item first s generalizing as rest with
  | case1 => cases h
  | case2 => cases h; exact Nat.le_refl _
  | case3 => cases h
  | case4 => cases h
  | case5 =>
    cases h
    have := length_nextItem_le ‹nextItem _ _ = _›
    have := item.length_lt ‹item.read _ = _›
    have := ‹∀ {_ _}, readItems _ _ _ = _ → _› ‹readItems _ _ _ = _›
    omega

/-- A list, item by item. -/
def readList {α : Type} (item : Reader α) (s : List UInt8) : Read (List α) :=
  match skipSpace s with
  | [] => .error .ended
  | b :: rest =>
    if b = byte '[' then
      match readItems item true rest with
      | .error e => .error e
      | .ok (items, rest) =>
        match closeArray rest with
        | .error e => .error e
        | .ok rest => .ok (items, rest)
    else .error (mismatch "a sequence" b rest)

theorem length_readList {α : Type} {item : Reader α} {s rest : List UInt8} {as : List α}
    (h : readList item s = .ok (as, rest)) : rest.length < s.length := by
  have hs := length_skipSpace_le s
  unfold readList at h
  split at h
  · cases h
  · next hb =>
    rw [hb, List.length_cons] at hs
    repeat' split at h
    all_goals cases h
    have := length_readItems_le ‹readItems _ _ _ = _›
    have := length_closeArray ‹closeArray _ = _›
    omega

/-- Reads a list. -/
def Reader.list {α : Type} (item : Reader α) : Reader (List α) :=
  ⟨readList item, length_readList⟩

end HotFrames.Json

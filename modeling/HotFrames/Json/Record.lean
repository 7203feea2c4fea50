import HotFrames.Json.Reader

/-!
# Readers of records

A record is an object with one member per field, in any order and among members that nobody wants,
or an array of the fields in order. The first thing that is wrong, from left to right, is the error:
a member that occurs twice is found at its second name, a field that is missing at the closing
brace.
-/

namespace HotFrames.Json

/-- A field of a record that is read into drafts of type `δ`. -/
structure Field (δ : Type) where
  name : String
  /-- Whether a draft has the field. -/
  isSet : δ → Bool
  /-- Reads the field into a draft. -/
  reader : δ → Reader δ

/-- How a record of type `α` is read, by way of a draft of type `δ`. -/
structure Shape (δ α : Type) where
  name : String
  /-- The draft without fields. -/
  start : δ
  /-- The fields in order. -/
  fields : List (Field δ)
  /-- The record, when the draft has all fields. -/
  finish : δ → Option α

variable {δ α : Type}

/-! ### Arrays -/

/-- Reads the fields in order from the items of an array; `count` of them are read already. -/
def readInOrder (shape : Shape δ α) : Nat → List (Field δ) → δ → List UInt8 → Read δ
  | _, [], draft, s => .ok (draft, s)
  | count, field :: fields, draft, s =>
    match nextItem (count = 0) s with
    | .error e => .error e
    | .ok none => .error (.tooShort count shape.name shape.fields.length)
    | .ok (some start) =>
      match (field.reader draft).read start with
      | .error e => .error e
      | .ok (draft, rest) => readInOrder shape (count + 1) fields draft rest

theorem length_readInOrder_le {shape : Shape δ α} {count : Nat} {fields : List (Field δ)}
    {draft result : δ} {s rest : List UInt8}
    (h : readInOrder shape count fields draft s = .ok (result, rest)) :
    rest.length ≤ s.length := by
  induction fields generalizing count draft s with
  | nil => cases h; exact Nat.le_refl _
  | cons field fields ih =>
    unfold readInOrder at h
    repeat' split at h
    · cases h
    · cases h
    · cases h
    · have := length_nextItem_le ‹nextItem _ _ = _›
      have := (field.reader draft).length_lt ‹Reader.read _ _ = _›
      have := ih h
      omega

/-! ### Objects -/

/-- The start of the next name of an object, after its quote; none at the closing brace. -/
def nextName (first : Bool) (s : List UInt8) : Except Error (Option (List UInt8)) :=
  match skipSpace s with
  | [] => .error .ended
  | b :: rest =>
    if b = byte '\x7d' then .ok none
    else if first then
      if b = byte '"' then .ok (some rest) else .error .malformed
    else if b = byte ',' then
      match skipSpace rest with
      | [] => .error .ended
      | c :: later => if c = byte '"' then .ok (some later) else .error .malformed
    else .error .malformed

theorem length_nextName {first : Bool} {s start : List UInt8}
    (h : nextName first s = .ok (some start)) : start.length < s.length := by
  have hs := length_skipSpace_le s
  unfold nextName at h
  split at h
  · cases h
  · next b rest hb =>
    rw [hb, List.length_cons] at hs
    have hr := length_skipSpace_le rest
    repeat' split at h
    all_goals cases h
    · exact hs
    · rw [‹skipSpace rest = _›, List.length_cons] at hr
      omega

/-- A member after the opening quote of its name. A member that is no field is passed over. -/
def readMember (fields : List (Field δ)) (draft : δ) (s : List UInt8) : Read δ :=
  match readText s with
  | .error e => .error e
  | .ok (name, rest) =>
    match fields.find? (·.name = name) with
    | some field =>
      if field.isSet draft then .error (.duplicate name)
      else
        match skipColon rest with
        | .error e => .error e
        | .ok rest => (field.reader draft).read rest
    | none =>
      match skipColon rest with
      | .error e => .error e
      | .ok rest =>
        match skipValue [] rest with
        | .error e => .error e
        | .ok rest => .ok (draft, rest)

theorem length_readMember {fields : List (Field δ)} {draft result : δ} {s rest : List UInt8}
    (h : readMember fields draft s = .ok (result, rest)) : rest.length < s.length := by
  unfold readMember at h
  split at h
  · cases h
  · have := length_readText ‹readText _ = _›
    split at h
    · repeat' split at h
      · cases h
      · cases h
      · have := length_skipColon ‹skipColon _ = _›
        have := Reader.length_lt _ h
        omega
    · repeat' split at h
      all_goals cases h
      have := length_skipColon ‹skipColon _ = _›
      have := length_skipValue ‹skipValue _ _ = _›
      omega

/-- The members of an object up to its closing brace. -/
def readMembers (fields : List (Field δ)) (first : Bool) (draft : δ) (s : List UInt8) : Read δ :=
  match _hn : nextName first s with
  | .error e => .error e
  | .ok none => .ok (draft, s)
  | .ok (some start) =>
    match _hm : readMember fields draft start with
    | .error e => .error e
    | .ok (draft, rest) => readMembers fields false draft rest
termination_by s.length
decreasing_by exact Nat.lt_trans (length_readMember _hm) (length_nextName _hn)

theorem length_readMembers_le {fields : List (Field δ)} {first : Bool} {draft result : δ}
    {s rest : List UInt8} (h : readMembers fields first draft s = .ok (result, rest)) :
    rest.length ≤ s.length := by
  fun_induction readMembers fields first draft s with
  | case1 => cases h
  | case2 => cases h; exact Nat.le_refl _
  | case3 => cases h
  | case4 =>
    have := length_nextName ‹nextName _ _ = _›
    have := length_readMember ‹readMember _ _ _ = _›
    have := ‹readMembers _ _ _ _ = _ → _› h
    omega

/-- Passes over the closing brace of an object, for which the draft has to be complete. -/
def closeObject (fields : List (Field δ)) (draft : δ) (s : List UInt8) :
    Except Error (List UInt8) :=
  match fields.find? fun field => !field.isSet draft with
  | some field => .error (.missing field.name)
  | none =>
    match skipSpace s with
    | [] => .error .ended
    | b :: rest => if b = byte '\x7d' then .ok rest else .error .malformed

theorem length_closeObject {fields : List (Field δ)} {draft : δ} {s rest : List UInt8}
    (h : closeObject fields draft s = .ok rest) : rest.length < s.length := by
  have hs := length_skipSpace_le s
  unfold closeObject at h
  repeat' split at h
  all_goals cases h
  rw [‹skipSpace s = _›, List.length_cons] at hs
  omega

/-! ### Records -/

/-- The draft of a record. -/
def readDraft (shape : Shape δ α) (s : List UInt8) : Read δ :=
  match skipSpace s with
  | [] => .error .ended
  | b :: rest =>
    if b = byte '[' then
      match readInOrder shape 0 shape.fields shape.start rest with
      | .error e => .error e
      | .ok (draft, rest) =>
        match closeArray rest with
        | .error e => .error e
        | .ok rest => .ok (draft, rest)
    else if b = byte '\x7b' then
      match readMembers shape.fields true shape.start rest with
      | .error e => .error e
      | .ok (draft, rest) =>
        match closeObject shape.fields draft rest with
        | .error e => .error e
        | .ok rest => .ok (draft, rest)
    else .error (mismatch ("struct " ++ shape.name) b rest)

theorem length_readDraft {shape : Shape δ α} {s rest : List UInt8} {draft : δ}
    (h : readDraft shape s = .ok (draft, rest)) : rest.length < s.length := by
  have hs := length_skipSpace_le s
  unfold readDraft at h
  split at h
  · cases h
  · next hb =>
    rw [hb, List.length_cons] at hs
    split at h
    · repeat' split at h
      all_goals cases h
      have := length_readInOrder_le ‹readInOrder _ _ _ _ _ = _›
      have := length_closeArray ‹closeArray _ = _›
      omega
    · split at h
      · repeat' split at h
        all_goals cases h
        have := length_readMembers_le ‹readMembers _ _ _ _ = _›
        have := length_closeObject ‹closeObject _ _ _ = _›
        omega
      · cases h

/-- Reads a record. -/
def Reader.record (shape : Shape δ α) : Reader α :=
  Reader.filterMap shape.finish ⟨readDraft shape, length_readDraft⟩

end HotFrames.Json

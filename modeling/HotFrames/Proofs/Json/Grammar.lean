import HotFrames.Json.Skip
import HotFrames.Proofs.Json.Number

/-!
# The grammar of JSON values

A valid JSON value (`IsValue`) is a word, a number or a text, or brackets around such values with
commas between them (`Listed`), at any depth.  Whatever is valid is passed over exactly to its end
(`IsValue.skipValue`).  The open brackets that `skipValue` keeps are those of the values around the
one that is passed over, so the induction is on the value, for every list of open brackets.
-/

namespace HotFrames.Json

open Utf8 Numeral

/-! ## Items between brackets -/

/-- What stands before an item: white space, and behind another item a comma. -/
def Separates : Bool → List UInt8 → Prop
  | true, s => Blank s
  | false, s => ∃ before after, Blank before ∧ Blank after ∧ s = before ++ byte ',' :: after

/-- The opening bracket. -/
def Bracket.opens : Bracket → UInt8
  | square => byte '['
  | curly => byte '\x7b'

/-- Items one behind the other, up to the closing bracket.  The first one has no comma before it. -/
inductive Listed (bracket : Bracket) : Bool → List (List UInt8) → List UInt8 → Prop
  | nil {first : Bool} {space : List UInt8} (hspace : Blank space) :
      Listed bracket first [] (space ++ [bracket.close])
  | cons {first : Bool} {before item rest : List UInt8} {items : List (List UInt8)}
      (hbefore : Separates first before) (hrest : Listed bracket false items rest) :
      Listed bracket first (item :: items) (before ++ (item ++ rest))

theorem blank_nil : Blank [] := fun _ h => nomatch h

theorem blank_singleton {b : UInt8} (h : isSpace b = true) : Blank [b] :=
  fun _ hb => List.mem_singleton.1 hb ▸ h

theorem isSpace_close (bracket : Bracket) : isSpace bracket.close = false := by
  cases bracket <;> decide

/-- White space ends a number, if what is behind it does. -/
theorem endsNumber_append {space s : List UInt8} (hspace : Blank space) (hs : EndsNumber s) :
    EndsNumber (space ++ s) := by
  cases space with
  | nil => exact hs
  | cons a space =>
    intro b hb
    obtain rfl : a = b := Option.some.inj hb
    have ha := hspace a List.mem_cons_self
    simp only [isSpace, Bool.or_eq_true, decide_eq_true_eq] at ha
    rcases ha with ((rfl | rfl) | rfl) | rfl <;> decide

theorem endsNumber_close (bracket : Bracket) (s : List UInt8) :
    EndsNumber (bracket.close :: s) := by
  intro b hb
  obtain rfl : bracket.close = b := Option.some.inj hb
  cases bracket <;> decide

theorem endsNumber_comma (s : List UInt8) : EndsNumber (byte ',' :: s) := by
  intro b hb
  obtain rfl : byte ',' = b := Option.some.inj hb
  decide

/-- What comes after an item ends a number. -/
theorem Listed.endsNumber {bracket : Bracket} {items : List (List UInt8)} {s : List UInt8}
    (h : Listed bracket false items s) (rest : List UInt8) : EndsNumber (s ++ rest) := by
  cases h with
  | nil hspace =>
    rw [List.append_assoc]
    exact endsNumber_append hspace (endsNumber_close bracket rest)
  | cons hbefore hrest =>
    obtain ⟨before, after, hblank, -, rfl⟩ := hbefore
    simp only [List.append_assoc, List.cons_append]
    exact endsNumber_append hblank (endsNumber_comma _)

/-! ## Numbers -/

/-- The decimal places of a number, if it has any. -/
def IsPlaces (cs : List Char) : Prop := cs = [] ∨ ∃ ds, isNumeral ds = true ∧ cs = '.' :: ds

/-- The exponent of a number, if it has one. -/
def IsExponent (cs : List Char) : Prop :=
  cs = [] ∨ ∃ e sign ds, (e = 'e' ∨ e = 'E') ∧ (sign = [] ∨ sign = ['+'] ∨ sign = ['-']) ∧
    isNumeral ds = true ∧ cs = e :: (sign ++ ds)

/-- A number without its sign. -/
def IsMagnitude (cs : List Char) : Prop :=
  ∃ whole places exponent, IsWhole whole ∧ IsPlaces places ∧ IsExponent exponent ∧
    cs = whole ++ (places ++ exponent)

section Numbers

variable {cs : List Char} {rest : List UInt8}

theorem skipDigits_append (h : isNumeral cs = true) (hrest : EndsDigits rest) :
    skipDigits (encode cs ++ rest) = .ok rest := by
  have hafter := afterDigits_append (isDigit_of_isNumeral h) hrest
  obtain ⟨b, s, hb, hdigit⟩ := encode_numeral h
  rw [hb, List.cons_append] at hafter ⊢
  rw [skipDigits, if_pos hdigit]
  rw [afterDigits, List.dropWhile_cons_of_pos hdigit] at hafter
  exact congrArg Except.ok hafter

theorem readSign_append {sign : List Char} (hsign : sign = [] ∨ sign = ['+'] ∨ sign = ['-'])
    (h : isNumeral cs = true) (rest : List UInt8) :
    (readSign (encode (sign ++ cs) ++ rest)).2 = encode cs ++ rest := by
  obtain rfl | rfl | rfl := hsign
  · obtain ⟨b, s, hb, hdigit⟩ := encode_numeral h
    have hne {c : Char} (hc : isDigit (byte c) = false) : b ≠ byte c := by
      rintro rfl
      rw [hc] at hdigit
      cases hdigit
    rw [List.nil_append, hb, List.cons_append, readSign, if_neg (hne (by decide)),
      if_neg (hne (by decide))]
  · rw [encode_append, encode_ascii (by simp)]
    rfl
  · rw [encode_append, encode_ascii (by simp)]
    rfl

theorem skipExponent_append (h : IsExponent cs) (hrest : EndsNumber rest) :
    skipExponent (encode cs ++ rest) = .ok rest := by
  obtain rfl | ⟨e, sign, ds, he, hsign, hds, rfl⟩ := h
  · cases rest with
    | nil => rfl
    | cons b s =>
      have hne : ¬ (b = byte 'e' ∨ b = byte 'E') := not_or.2 (hrest b rfl).2.2
      rw [encode_nil, List.nil_append, skipExponent, if_neg hne]
  · have hletter : byte e = byte 'e' ∨ byte e = byte 'E' := he.imp (congrArg byte) (congrArg byte)
    have hascii : e.toNat < 0x80 := by
      obtain rfl | rfl := he <;> decide
    rw [encode_cons_ascii hascii, List.cons_append, skipExponent, if_pos hletter,
      readSign_append hsign hds, skipDigits_append hds hrest.endsDigits]

/-- An exponent begins with a letter, if there is one. -/
theorem IsExponent.ends (h : IsExponent cs) (hrest : EndsNumber rest) :
    EndsDigits (encode cs ++ rest) ∧ byte '.' ∉ (encode cs ++ rest).head? := by
  obtain rfl | ⟨e, sign, ds, he, -, -, rfl⟩ := h
  · exact ⟨hrest.endsDigits, fun h => (hrest _ h).2.1 rfl⟩
  · obtain rfl | rfl := he <;>
    · rw [encode_cons_ascii (by decide), List.cons_append]
      exact ⟨endsDigits_cons (by decide) _, by simp only [List.head?_cons]; decide⟩

theorem skipNumber_of_whole {s later : List UInt8} {ds : List ℕ}
    (hwhole : readWhole s = .ok (ds, later)) (hpoint : byte '.' ∉ later.head?) :
    skipNumber s = skipExponent later := by
  rw [skipNumber, hwhole]
  cases later with
  | nil => rfl
  | cons b later =>
    have hne : b ≠ byte '.' := fun h => hpoint (by rw [h]; rfl)
    simp only [if_neg hne]

/-- A number is passed over to its end. -/
theorem skipNumber_append (h : IsMagnitude cs) (hrest : EndsNumber rest) :
    skipNumber (encode cs ++ rest) = .ok rest := by
  obtain ⟨whole, places, exponent, hwhole, hplaces, hexponent, rfl⟩ := h
  obtain ⟨hdigits, hpoint⟩ := hexponent.ends hrest
  obtain rfl | ⟨ds, hds, rfl⟩ := hplaces
  · have hread := readWhole_append hwhole hdigits
    rw [List.nil_append, encode_append, List.append_assoc, skipNumber_of_whole hread hpoint,
      skipExponent_append hexponent hrest]
  · have hends : EndsDigits (encode ('.' :: (ds ++ exponent)) ++ rest) := by
      rw [encode_cons_ascii (by decide)]
      exact endsDigits_cons (by decide) _
    have hread := readWhole_append hwhole hends
    rw [encode_cons_ascii (by decide), List.cons_append] at hread
    rw [List.cons_append, encode_append, encode_cons_ascii (by decide), List.append_assoc,
      List.cons_append, skipNumber, hread]
    simp only [if_true]
    rw [encode_append, List.append_assoc, skipDigits_append hds hdigits]
    exact skipExponent_append hexponent hrest

end Numbers

/-! ## Values -/

/-- A value without parts: a word, a number or a text. -/
inductive IsScalar : List UInt8 → Prop
  | word {w : String} (hw : w ∈ ["null", "true", "false"]) : IsScalar (encode w.toList)
  | positive {cs : List Char} (h : IsMagnitude cs) : IsScalar (encode cs)
  | negative {cs : List Char} (h : IsMagnitude cs) : IsScalar (byte '-' :: encode cs)
  | text {s : List UInt8} (h : TextBody s) : IsScalar (byte '"' :: (s ++ [byte '"']))

/-- A name with its quotes, and the colon behind it. -/
def IsName (s : List UInt8) : Prop :=
  ∃ name before after, TextBody name ∧ Blank before ∧ Blank after ∧
    s = byte '"' :: (name ++ byte '"' :: (before ++ byte ':' :: after))

/-- A valid JSON value. -/
inductive IsValue : List UInt8 → Prop
  | scalar {s : List UInt8} (h : IsScalar s) : IsValue s
  | array {items : List (List UInt8)} {s : List UInt8} (hitems : ∀ item ∈ items, IsValue item)
      (hs : Listed .square true items s) : IsValue (byte '[' :: s)
  | object {members : List (List UInt8 × List UInt8)} {s : List UInt8}
      (hnames : ∀ m ∈ members, IsName m.1) (hvalues : ∀ m ∈ members, IsValue m.2)
      (hs : Listed .curly true (members.map fun m => m.1 ++ m.2) s) : IsValue (byte '\x7b' :: s)

/-! ## Passing over -/

theorem skipWord_append (word rest : List UInt8) : skipWord word (word ++ rest) = .ok rest := by
  induction word with
  | nil => rfl
  | cons c word ih => rw [List.cons_append, skipWord, if_pos rfl, ih]

/-- A value without parts begins with a byte that opens no bracket and is no white space, and it is
passed over from there. -/
theorem IsScalar.exists_head {s : List UInt8} (h : IsScalar s) :
    ∃ b t, s = b :: t ∧ isSpace b = false ∧ (b ≠ byte '[' ∧ b ≠ byte '\x7b' ∧ b ≠ byte ']') ∧
      ∀ rest, EndsNumber rest → skipScalar b (t ++ rest) = .ok rest := by
  cases h with
  | word hw =>
    have hletters : ∀ w ∈ ["null", "true", "false"], encode w.toList = wordBytes w := by
      intro w hw
      simp only [List.mem_cons, List.not_mem_nil, or_false] at hw
      obtain rfl | rfl | rfl := hw <;> exact encode_ascii (by simp)
    rw [hletters _ hw]
    simp only [List.mem_cons, List.not_mem_nil, or_false] at hw
    obtain rfl | rfl | rfl := hw
    · exact ⟨byte 'n', wordBytes "ull", by decide, by decide, by decide,
        fun rest _ => skipWord_append (wordBytes "ull") rest⟩
    · exact ⟨byte 't', wordBytes "rue", by decide, by decide, by decide,
        fun rest _ => skipWord_append (wordBytes "rue") rest⟩
    · exact ⟨byte 'f', wordBytes "alse", by decide, by decide, by decide,
        fun rest _ => skipWord_append (wordBytes "alse") rest⟩
  | positive h =>
    obtain ⟨whole, places, exponent, hwhole, -, -, rfl⟩ := id h
    obtain ⟨b, t, hb, hdigit⟩ := encode_numeral hwhole.1
    have hne {c : Char} (hc : isDigit (byte c) = false) : b ≠ byte c := by
      rintro rfl
      rw [hc] at hdigit
      cases hdigit
    refine ⟨b, t ++ encode (places ++ exponent), by rw [encode_append, hb, List.cons_append],
      isSpace_of_isDigit hdigit, ⟨hne (by decide), hne (by decide), hne (by decide)⟩, ?_⟩
    intro rest hrest
    have hskip := skipNumber_append h hrest
    rw [encode_append, hb, List.cons_append, List.cons_append] at hskip
    rw [skipScalar, if_neg (hne (by decide)), if_neg (hne (by decide)), if_neg (hne (by decide)),
      if_neg (hne (by decide)), if_pos hdigit]
    exact hskip
  | negative h =>
    exact ⟨byte '-', _, rfl, by decide, by decide, fun rest hrest => skipNumber_append h hrest⟩
  | text h =>
    refine ⟨byte '"', _, rfl, by decide, by decide, fun rest _ => ?_⟩
    rw [List.append_assoc]
    exact h.skipText rest

/-- The first byte of a value is neither white space nor a closing bracket. -/
theorem IsValue.exists_head {s : List UInt8} (h : IsValue s) :
    ∃ b t, s = b :: t ∧ isSpace b = false ∧ b ≠ byte ']' := by
  cases h with
  | scalar h =>
    obtain ⟨b, t, rfl, hspace, ⟨-, -, hclose⟩, -⟩ := h.exists_head
    exact ⟨b, t, rfl, hspace, hclose⟩
  | array _ _ => exact ⟨_, _, rfl, by decide, by decide⟩
  | object _ _ _ => exact ⟨_, _, rfl, by decide, by decide⟩

theorem skipColon_append {before : List UInt8} (hbefore : Blank before) (rest : List UInt8) :
    skipColon (before ++ byte ':' :: rest) = .ok rest := by
  rw [skipColon, skipSpace_append hbefore, skipSpace_cons (by decide)]
  rfl

/-- Passing over a name leaves the white space behind its colon. -/
theorem IsName.skipName {s : List UInt8} (h : IsName s) {space : List UInt8} (hspace : Blank space)
    (rest : List UInt8) :
    ∃ after, Blank after ∧ Json.skipName (space ++ (s ++ rest)) = .ok (after ++ rest) := by
  obtain ⟨name, before, after, hname, hbefore, hafter, rfl⟩ := h
  refine ⟨after, hafter, ?_⟩
  simp only [List.append_assoc, List.cons_append]
  rw [Json.skipName, skipSpace_append hspace, skipSpace_cons (by decide)]
  simp only [if_true, hname.skipText, skipColon_append hbefore]

/-- Passes over an item of an array or a member of an object, and what follows it. -/
def skipItem (bracket : Bracket) (outer : List Bracket) (s : List UInt8) :
    Except Error (List UInt8) :=
  match bracket with
  | .square => skipValue (.square :: outer) s
  | .curly => (Json.skipName s).bind (skipValue (.curly :: outer))

theorem skipAfter_close (bracket : Bracket) (outer : List Bracket) {space : List UInt8}
    (hspace : Blank space) (rest : List UInt8) :
    skipAfter (bracket :: outer) (space ++ bracket.close :: rest) = skipAfter outer rest := by
  have hcomma : bracket.close ≠ byte ',' := by cases bracket <;> decide
  rw [skipAfter, skipSpace_append hspace, skipSpace_cons (isSpace_close bracket)]
  simp only [if_neg hcomma, if_true]

theorem skipAfter_comma (bracket : Bracket) (outer : List Bracket) {space : List UInt8}
    (hspace : Blank space) (rest : List UInt8) :
    skipAfter (bracket :: outer) (space ++ byte ',' :: rest) = skipItem bracket outer rest := by
  rw [skipAfter, skipSpace_append hspace, skipSpace_cons (by decide)]
  simp only [if_true]
  cases bracket with
  | square => rfl
  | curly => cases hname : Json.skipName rest <;> simp [skipItem, hname, Except.bind]

/-- Whether passing over an item goes on behind it, wherever it stands. -/
def Skips (bracket : Bracket) (item : List UInt8) : Prop :=
  ∀ (outer : List Bracket) (space rest : List UInt8), Blank space → EndsNumber rest →
    skipItem bracket outer (space ++ (item ++ rest)) = skipAfter (bracket :: outer) rest

/-- The items behind the first one are passed over to the closing bracket. -/
theorem Listed.skipAfter_eq {bracket : Bracket} {items : List (List UInt8)} {s : List UInt8}
    (hitems : ∀ item ∈ items, Skips bracket item) (h : Listed bracket false items s)
    (outer : List Bracket) (rest : List UInt8) :
    skipAfter (bracket :: outer) (s ++ rest) = skipAfter outer rest := by
  induction items generalizing s with
  | nil =>
    cases h with
    | nil hspace =>
      rw [List.append_assoc]
      exact skipAfter_close bracket outer hspace rest
  | cons item items ih =>
    cases h with
    | cons hbefore hrest =>
      obtain ⟨before, after, hblank, hafter, rfl⟩ := hbefore
      simp only [List.append_assoc, List.cons_append]
      rw [skipAfter_comma bracket outer hblank,
        hitems item List.mem_cons_self outer after _ hafter (hrest.endsNumber rest),
        ih (fun item' hitem' => hitems item' (List.mem_cons_of_mem item hitem')) hrest]

theorem skipValue_opens (bracket : Bracket) (outer : List Bracket) {space : List UInt8}
    (hspace : Blank space) {s later : List UInt8} {c : UInt8} (hs : skipSpace s = c :: later) :
    skipValue outer (space ++ bracket.opens :: s) =
      if c = bracket.close then skipAfter outer later else skipItem bracket outer s := by
  have hopens : isSpace bracket.opens = false := by cases bracket <;> decide
  rw [skipValue, skipSpace_append hspace, skipSpace_cons hopens]
  cases bracket with
  | square =>
    simp only [Bracket.opens, if_true]
    rw [hs]
    rfl
  | curly =>
    simp only [Bracket.opens, if_true]
    rw [if_neg (by decide), hs]
    by_cases hclose : c = Bracket.curly.close
    · rw [if_pos hclose]
      exact if_pos hclose
    · rw [if_neg hclose, skipItem]
      refine (if_neg hclose).trans ?_
      cases hname : Json.skipName s <;> simp [Except.bind]

/-- Brackets with what is between them are passed over. -/
theorem Listed.skipValue_eq {bracket : Bracket} {items : List (List UInt8)} {s : List UInt8}
    (hitems : ∀ item ∈ items, Skips bracket item)
    (hheads : ∀ item ∈ items, ∃ b t, item = b :: t ∧ isSpace b = false ∧ b ≠ bracket.close)
    (h : Listed bracket true items s) (outer : List Bracket) {space : List UInt8}
    (hspace : Blank space) (rest : List UInt8) :
    skipValue outer (space ++ bracket.opens :: (s ++ rest)) = skipAfter outer rest := by
  cases h with
  | nil hblank =>
    have hskip := (skipSpace_append hblank _).trans (skipSpace_cons (isSpace_close bracket) rest)
    rw [List.append_assoc, List.singleton_append, skipValue_opens bracket outer hspace hskip,
      if_pos rfl]
  | @cons _ before item later items hbefore hlater =>
    obtain ⟨b, t, rfl, hb, hclose⟩ := hheads item List.mem_cons_self
    have hskip : skipSpace (before ++ (b :: t ++ (later ++ rest))) = b :: (t ++ (later ++ rest)) :=
      (skipSpace_append hbefore _).trans (skipSpace_cons hb _)
    simp only [List.append_assoc]
    rw [skipValue_opens bracket outer hspace hskip, if_neg hclose,
      hitems _ List.mem_cons_self outer before _ hbefore (hlater.endsNumber rest)]
    exact hlater.skipAfter_eq (fun item' hitem' => hitems item' (List.mem_cons_of_mem _ hitem'))
      outer rest

theorem IsName.exists_head {s : List UInt8} (h : IsName s) : ∃ t, s = byte '"' :: t := by
  obtain ⟨_, _, _, _, _, _, rfl⟩ := h
  exact ⟨_, rfl⟩

/-- **A valid value is passed over exactly to its end**, and then what follows it is. -/
theorem IsValue.skipValue {s : List UInt8} (h : IsValue s) (outer : List Bracket)
    {space rest : List UInt8} (hspace : Blank space) (hrest : EndsNumber rest) :
    Json.skipValue outer (space ++ (s ++ rest)) = skipAfter outer rest := by
  induction h generalizing outer space rest with
  | scalar h =>
    obtain ⟨b, t, rfl, hb, ⟨hsquare, hcurly, -⟩, hskip⟩ := h.exists_head
    rw [Json.skipValue, skipSpace_append hspace, List.cons_append, skipSpace_cons hb]
    simp only [if_neg hsquare, if_neg hcurly]
    split
    · next h' => rw [hskip rest hrest] at h'; cases h'
    · next h' =>
      rw [hskip rest hrest] at h'
      cases h'
      rfl
  | array hitems hs ih =>
    have hskips : ∀ item ∈ _, Skips .square item :=
      fun item hitem outer space rest hspace hrest => ih item hitem (.square :: outer) hspace hrest
    exact hs.skipValue_eq hskips (fun item hitem => (hitems item hitem).exists_head) outer hspace rest
  | @object members s hnames hvalues hs ih =>
    have hskips : ∀ member ∈ members.map fun m => m.1 ++ m.2, Skips .curly member := by
      intro member hmember outer space rest hspace hrest
      obtain ⟨m, hm, rfl⟩ := List.mem_map.1 hmember
      obtain ⟨after, hafter, hname⟩ := (hnames m hm).skipName hspace (m.2 ++ rest)
      rw [skipItem, List.append_assoc, hname]
      exact ih m hm (.curly :: outer) hafter hrest
    refine hs.skipValue_eq hskips (fun member hmember => ?_) outer hspace rest
    obtain ⟨m, hm, rfl⟩ := List.mem_map.1 hmember
    obtain ⟨t, ht⟩ := (hnames m hm).exists_head
    exact ⟨byte '"', t ++ m.2, by rw [ht, List.cons_append], by decide, by decide⟩

end HotFrames.Json

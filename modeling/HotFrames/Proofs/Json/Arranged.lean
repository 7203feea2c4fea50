import HotFrames.Json
import HotFrames.Proofs.Json.Grammar

/-!
# Arrangements of a value

A value can be written in many ways (`Arranged`): the members of its objects in any order, other
members among them, whose names are none of the object's and whose values are any valid ones, names
with escapes, and white space between all tokens.  The written form of a value is one of them
(`arranged_pretty`).  A text can also be spoiled in one place (`Spoiled`): an object of the value
lacks a member, or has a second member with a name that it had before.
-/

namespace HotFrames.Json

open Utf8

/-! ## Members -/

/-- A member of an object as it stands in a text. -/
structure Member where
  /-- The name. -/
  label : String
  /-- What stands between the quotes of the name. -/
  name : List UInt8
  spells : Spells label.toList name
  /-- The white space before the colon. -/
  before : List UInt8
  blank_before : Blank before
  /-- The white space behind the colon. -/
  after : List UInt8
  blank_after : Blank after
  /-- The text of the value. -/
  value : List UInt8

namespace Member

/-- A member behind the opening quote of its name. -/
def body (m : Member) : List UInt8 :=
  m.name ++ byte '"' :: (m.before ++ byte ':' :: (m.after ++ m.value))

/-- A member. -/
def text (m : Member) : List UInt8 := byte '"' :: m.body

/-- A member with its name and colon as they are written. -/
def written (label : String) (value : List UInt8) : Member where
  label := label
  name := encode (label.toList.flatMap escape)
  spells := spells_flatMap_escape _
  before := []
  blank_before := blank_nil
  after := [byte ' ']
  blank_after := blank_singleton (by decide)
  value := value

/-- The member that a text is for, with the value that it is a text of. -/
def field (known : Json × Member) : String × Json := (known.2.label, known.1)

end Member

/-- Whether some members are the known ones in any order, with others among them that have valid
values and names that are none of the given ones. -/
def Mixes (names : List String) (known members : List Member) : Prop :=
  ∃ others, members.Perm (known ++ others) ∧ ∀ m ∈ others, m.label ∉ names ∧ IsValue m.value

theorem mixes_self (names : List String) (known : List Member) : Mixes names known known :=
  ⟨[], by rw [List.append_nil], fun _ h => nomatch h⟩

/-- A text of an array with given texts of its items. -/
def ArrayText (items : List (List UInt8)) (s : List UInt8) : Prop :=
  ∃ body, Listed .square true items body ∧ s = byte '[' :: body

/-- A text of an object with given members. -/
def ObjectText (members : List Member) (s : List UInt8) : Prop :=
  ∃ body, Listed .curly true (members.map Member.text) body ∧ s = byte '\x7b' :: body

/-- Items with nothing but commas between them. -/
def compact : List (List UInt8) → List UInt8
  | [] => []
  | item :: items => item ++ items.flatMap (byte ',' :: ·)

theorem listed_compact (bracket : Bracket) (items : List (List UInt8)) :
    Listed bracket true items (compact items ++ [bracket.close]) := by
  have hlater (items : List (List UInt8)) :
      Listed bracket false items (items.flatMap (byte ',' :: ·) ++ [bracket.close]) := by
    induction items with
    | nil => exact .nil blank_nil
    | cons item items ih =>
      have hcomma : Separates false [byte ','] := ⟨[], [], blank_nil, blank_nil, rfl⟩
      rw [List.flatMap_cons, List.cons_append, List.cons_append, List.append_assoc]
      exact .cons hcomma ih
  cases items with
  | nil => exact .nil blank_nil
  | cons item items =>
    rw [compact, List.append_assoc]
    exact @Listed.cons _ true [] _ _ _ blank_nil (hlater items)

theorem objectText_compact (members : List Member) :
    ObjectText members (byte '\x7b' :: (compact (members.map Member.text) ++ [byte '\x7d'])) :=
  ⟨_, listed_compact .curly _, rfl⟩

/-! ## Arrangements -/

/-- Whether a value has no parts. -/
def isLeaf : Json → Bool
  | array _ => false
  | object _ => false
  | _ => true

/-- Whether a text is an arrangement of a value. -/
inductive Arranged : Json → List UInt8 → Prop
  | leaf {v : Json} (h : v.isLeaf = true) : Arranged v (encode (v.pretty 0))
  | array {items : List (Json × List UInt8)} {s : List UInt8} (h : ∀ i ∈ items, Arranged i.1 i.2)
      (hs : ArrayText (items.map Prod.snd) s) : Arranged (array (items.map Prod.fst)) s
  | object {known : List (Json × Member)} {members : List Member} {s : List UInt8}
      (h : ∀ k ∈ known, Arranged k.1 k.2.value)
      (hmixes : Mixes (known.map (·.2.label)) (known.map Prod.snd) members)
      (hs : ObjectText members s) : Arranged (object (known.map Member.field)) s

/-- Whether a text is an arrangement of a value that is spoiled in one place, with the error that says
how.  The object in that place lacks a member, and no other member has its name; or it has a second
member with one of its names, behind the first one and with any valid value.  The first one holds
what the value has there, so that of two members for one name either may be the one that is added. -/
inductive Spoiled : Json → Error → List UInt8 → Prop
  | missing {left right : List (Json × Member)} {name : String} {v : Json} {members : List Member}
      {s : List UInt8} (h : ∀ k ∈ left ++ right, Arranged k.1 k.2.value)
      (hmixes : Mixes (left.map (·.2.label) ++ name :: right.map (·.2.label))
        (left.map Prod.snd ++ right.map Prod.snd) members)
      (hs : ObjectText members s) :
      Spoiled (object (left.map Member.field ++ (name, v) :: right.map Member.field))
        (.missing name) s
  | duplicate {known : List (Json × Member)} {before after : List Member} {second : Member}
      {s : List UInt8} (h : ∀ k ∈ known, Arranged k.1 k.2.value)
      (hmixes : Mixes (known.map (·.2.label)) (known.map Prod.snd) (before ++ after))
      (hname : second.label ∈ known.map (·.2.label))
      (hfirst : second.label ∈ before.map Member.label) (hvalue : IsValue second.value)
      (hs : ObjectText (before ++ second :: after) s) :
      Spoiled (object (known.map Member.field)) (.duplicate second.label) s
  | item {left right : List (Json × List UInt8)} {v : Json} {e : Error} {text s : List UInt8}
      (h : ∀ i ∈ left ++ right, Arranged i.1 i.2) (hv : Spoiled v e text)
      (hs : ArrayText (left.map Prod.snd ++ text :: right.map Prod.snd) s) :
      Spoiled (array (left.map Prod.fst ++ v :: right.map Prod.fst)) e s
  | member {left right : List (Json × Member)} {v : Json} {e : Error} {m : Member}
      {members : List Member} {s : List UInt8} (h : ∀ k ∈ left ++ right, Arranged k.1 k.2.value)
      (hv : Spoiled v e m.value)
      (hmixes : Mixes (left.map (·.2.label) ++ m.label :: right.map (·.2.label))
        (left.map Prod.snd ++ m :: right.map Prod.snd) members)
      (hs : ObjectText members s) :
      Spoiled (object (left.map Member.field ++ (m.label, v) :: right.map Member.field)) e s

theorem Arranged.eq_of_isLeaf {v : Json} {s : List UInt8} (h : Arranged v s) (hv : v.isLeaf = true) :
    s = encode (v.pretty 0) := by
  cases h with
  | leaf => rfl
  | array => cases hv
  | object => cases hv

/-- Only an array or an object can be spoiled. -/
theorem Spoiled.isLeaf_eq_false {v : Json} {e : Error} {s : List UInt8} (h : Spoiled v e s) :
    v.isLeaf = false := by
  cases h <;> rfl

/-- What a spoiled value lacks or has twice is one field. -/
theorem Spoiled.error_cases {v : Json} {e : Error} {s : List UInt8} (h : Spoiled v e s) :
    ∃ name, e = .missing name ∨ e = .duplicate name := by
  induction h with
  | missing _ _ _ => exact ⟨_, .inl rfl⟩
  | duplicate _ _ _ _ _ _ => exact ⟨_, .inr rfl⟩
  | item _ _ _ ih => exact ih
  | member _ _ _ _ ih => exact ih

/-- What the arrangements of an array are made of. -/
theorem Arranged.of_array {items : List Json} {s : List UInt8} (h : Arranged (Json.array items) s) :
    ∃ texts, List.Forall₂ Arranged items texts ∧ ArrayText texts s := by
  generalize hv : Json.array items = v at h
  cases h with
  | leaf hleaf => rw [← hv] at hleaf; cases hleaf
  | array hitems hs =>
    obtain rfl := Json.array.inj hv
    refine ⟨_, ?_, hs⟩
    rw [List.forall₂_map_left_iff, List.forall₂_map_right_iff]
    exact List.forall₂_same.2 hitems
  | object => cases hv

/-- What the arrangements of an object are made of. -/
theorem Arranged.of_object {fields : List (String × Json)} {s : List UInt8}
    (h : Arranged (Json.object fields) s) :
    ∃ (known : List (Json × Member)) (members : List Member), fields = known.map Member.field ∧
      (∀ k ∈ known, Arranged k.1 k.2.value) ∧
      Mixes (known.map (·.2.label)) (known.map Prod.snd) members ∧ ObjectText members s := by
  generalize hv : Json.object fields = v at h
  cases h with
  | leaf hleaf => rw [← hv] at hleaf; cases hleaf
  | array => cases hv
  | object hknown hmixes hs => exact ⟨_, _, Json.object.inj hv, hknown, hmixes, hs⟩

/-- An array is spoiled in one of its items. -/
theorem Spoiled.of_array {items : List Json} {e : Error} {s : List UInt8}
    (h : Spoiled (Json.array items) e s) :
    ∃ left v right leftTexts text rightTexts, items = left ++ v :: right ∧
      List.Forall₂ Arranged left leftTexts ∧ List.Forall₂ Arranged right rightTexts ∧
      Spoiled v e text ∧ ArrayText (leftTexts ++ text :: rightTexts) s := by
  generalize hv : Json.array items = v at h
  cases h with
  | missing => cases hv
  | duplicate => cases hv
  | member => cases hv
  | item hitems hspoiled hs =>
    refine ⟨_, _, _, _, _, _, Json.array.inj hv, ?_, ?_, hspoiled, hs⟩
    all_goals
      rw [List.forall₂_map_left_iff, List.forall₂_map_right_iff, List.forall₂_same]
    · exact fun i hi => hitems i (List.mem_append_left _ hi)
    · exact fun i hi => hitems i (List.mem_append_right _ hi)

/-! ## The written form -/

/-- What separates an item or a member from the one before it. -/
def separator {α : Type} (first : Bool) (later : List α) : List Char :=
  if first then [] else comma later

theorem blank_lineBreak (level : ℕ) : Blank (encode (lineBreak level)) := by
  have hspaces : ∀ c ∈ List.replicate (2 * level) ' ', c = ' ' :=
    fun c hc => List.eq_of_mem_replicate hc
  have hascii : ∀ c ∈ lineBreak level, c.toNat < 0x80 := by
    intro c hc
    rcases List.mem_cons.1 hc with rfl | hc
    · decide
    · rw [hspaces c hc]
      decide
  rw [encode_ascii hascii]
  intro b hb
  obtain ⟨c, hc, rfl⟩ := List.mem_map.1 hb
  rcases List.mem_cons.1 hc with rfl | hc
  · decide
  · rw [hspaces c hc]
    decide

/-- What is written before an item or a member separates it from the one before it. -/
theorem separates_lineBreak {α : Type} (first : Bool) (level : ℕ) (x : α) (xs : List α) :
    Separates first (encode (separator first (x :: xs)) ++ encode (lineBreak level)) := by
  cases first with
  | true => exact blank_lineBreak level
  | false => exact ⟨[], _, blank_nil, blank_lineBreak level, by
      rw [List.nil_append, separator, comma]
      exact congrArg (· ++ _) (encode_cons_ascii (by decide) [])⟩

/-- The written items of an array. -/
theorem listed_prettyItems (first : Bool) (level : ℕ) (items : List Json) {space : List UInt8}
    (hspace : Blank space) :
    Listed .square first (items.map fun item => encode (item.pretty level))
      (encode (separator first items ++ prettyItems level items) ++ (space ++ [byte ']'])) := by
  induction items generalizing first with
  | nil =>
    have hnone : separator first ([] : List Json) = [] := by cases first <;> rfl
    rw [hnone, prettyItems]
    exact .nil hspace
  | cons item items ih =>
    have hlisted := @Listed.cons _ _ _ (encode (item.pretty level)) _ _
      (separates_lineBreak first level item items) (ih false)
    simp only [prettyItems, encode_append, List.append_assoc, List.map_cons, separator] at hlisted ⊢
    exact hlisted

/-- A member as it is written. -/
def writtenMember (level : ℕ) (member : String × Json) : Member :=
  .written member.1 (encode (member.2.pretty level))

theorem encode_prettyMember (level : ℕ) (member : String × Json) :
    encode (prettyMember level member) = (writtenMember level member).text := by
  rw [prettyMember, encode_append, encode_quoted, encode_cons_ascii (by decide),
    encode_cons_ascii (by decide)]
  rfl

/-- The members of an object as they are written, each with its value. -/
def writtenMembers (level : ℕ) (members : List (String × Json)) : List (Json × Member) :=
  members.map fun member => (member.2, writtenMember level member)

theorem map_field_writtenMembers (level : ℕ) (members : List (String × Json)) :
    (writtenMembers level members).map Member.field = members := by
  rw [writtenMembers, List.map_map]
  exact List.map_id members

theorem map_snd_writtenMembers (level : ℕ) (members : List (String × Json)) :
    (writtenMembers level members).map Prod.snd = members.map (writtenMember level) := by
  rw [writtenMembers, List.map_map]
  rfl

/-- The written members of an object. -/
theorem listed_prettyMembers (first : Bool) (level : ℕ) (members : List (String × Json))
    {space : List UInt8} (hspace : Blank space) :
    Listed .curly first ((members.map (writtenMember level)).map Member.text)
      (encode (separator first members ++ prettyMembers level members) ++
        (space ++ [byte '\x7d'])) := by
  induction members generalizing first with
  | nil =>
    have hnone : separator first ([] : List (String × Json)) = [] := by cases first <;> rfl
    rw [hnone, prettyMembers]
    exact .nil hspace
  | cons member members ih =>
    have hlisted := @Listed.cons _ _ _ (writtenMember level member).text _ _
      (separates_lineBreak first level member members) (ih false)
    simp only [prettyMembers, encode_append, List.append_assoc, List.map_cons, separator,
      ← encode_prettyMember] at hlisted ⊢
    exact hlisted

/-- The white space before the closing bracket. -/
def closing {α : Type} (level : ℕ) (items : List α) : List Char :=
  if items.isEmpty then [] else lineBreak level

theorem blank_closing {α : Type} (level : ℕ) (items : List α) :
    Blank (encode (closing level items)) := by
  unfold closing
  split
  · exact blank_nil
  · exact blank_lineBreak level

theorem encode_array (level : ℕ) (items : List Json) :
    encode ((array items).pretty level) =
      byte '[' :: (encode (separator true items ++ prettyItems (level + 1) items) ++
        (encode (closing level items) ++ [byte ']'])) := by
  rw [pretty, closing, separator, if_pos rfl, List.nil_append]
  cases items with
  | nil =>
    rw [prettyItems]
    exact encode_ascii (by simp)
  | cons item items =>
    simp only [List.isEmpty_cons, Bool.false_eq_true, if_false]
    rw [encode_cons_ascii (by decide), encode_append, encode_append]
    exact congrArg (fun close => _ :: (_ ++ (_ ++ close))) (encode_cons_ascii (by decide) [])

theorem encode_object (level : ℕ) (members : List (String × Json)) :
    encode ((object members).pretty level) =
      byte '\x7b' :: (encode (separator true members ++ prettyMembers (level + 1) members) ++
        (encode (closing level members) ++ [byte '\x7d'])) := by
  rw [pretty, closing, separator, if_pos rfl, List.nil_append]
  cases members with
  | nil =>
    rw [prettyMembers]
    exact encode_ascii (by simp)
  | cons member members =>
    simp only [List.isEmpty_cons, Bool.false_eq_true, if_false]
    rw [encode_cons_ascii (by decide), encode_append, encode_append]
    exact congrArg (fun close => _ :: (_ ++ (_ ++ close))) (encode_cons_ascii (by decide) [])

theorem pretty_of_isLeaf {v : Json} (h : v.isLeaf = true) (level : ℕ) :
    v.pretty level = v.pretty 0 := by
  cases v with
  | array => cases h
  | object => cases h
  | null | bool | natural | real | string => rw [pretty, pretty]

/-- **The written form of a value is one of its arrangements.** -/
theorem arranged_pretty (v : Json) (level : ℕ) : Arranged v (encode (v.pretty level)) := by
  by_cases hleaf : v.isLeaf = true
  · rw [pretty_of_isLeaf hleaf]
    exact .leaf hleaf
  cases v with
  | array items =>
    have hitems : ∀ i ∈ items.map fun item => (item, encode (item.pretty (level + 1))),
        Arranged i.1 i.2 := by
      intro i hi
      obtain ⟨item, hitem, rfl⟩ := List.mem_map.1 hi
      have := List.sizeOf_lt_of_mem hitem
      exact arranged_pretty item (level + 1)
    have harranged := Arranged.array hitems ⟨_, by
      rw [List.map_map]
      exact listed_prettyItems true (level + 1) items (blank_closing level items), rfl⟩
    rw [encode_array]
    simpa [List.map_map, Function.comp_def] using harranged
  | object members =>
    have hknown : ∀ k ∈ writtenMembers (level + 1) members, Arranged k.1 k.2.value := by
      intro k hk
      obtain ⟨member, hmember, rfl⟩ := List.mem_map.1 hk
      have := List.sizeOf_lt_of_mem hmember
      exact arranged_pretty member.2 (level + 1)
    have hlisted := listed_prettyMembers true (level + 1) members (blank_closing level members)
    rw [← map_snd_writtenMembers] at hlisted
    have harranged := Arranged.object hknown (mixes_self _ _) ⟨_, hlisted, rfl⟩
    rw [map_field_writtenMembers] at harranged
    rw [encode_object]
    exact harranged
  | null | bool | natural | real | string => exact absurd rfl hleaf
termination_by sizeOf v
decreasing_by
  · simp
    omega
  · rcases member with ⟨name, value⟩
    simp at this ⊢
    omega

theorem arranged_writtenMembers (level : ℕ) (members : List (String × Json)) :
    ∀ k ∈ writtenMembers level members, Arranged k.1 k.2.value := by
  intro k hk
  obtain ⟨member, -, rfl⟩ := List.mem_map.1 hk
  exact arranged_pretty member.2 level

end HotFrames.Json

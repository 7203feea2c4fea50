import HotFrames.Proofs.Json.Reader

/-!
# Records are read in any order

What a reader of records knows of the members it has passed is which fields have been read, so its
drafts are given by the names it has seen (`Drafts`).  A member that is the first one for its field,
or that is for no field, takes the draft of the names before it to the one with its own name, wherever
it stands, so that the members of an object are read in any order (`readMembers_append`).  From that
follow the record itself, the error of a member and the errors of a field that is missing or occurs
twice.
-/

namespace HotFrames

section List

variable {α β : Type} {P Q : α → Prop} {R : α → β → Prop}

/-- Where all items have one of two properties and some have the other, a first one has it. -/
theorem exists_append_of_or {xs : List α} (h : ∀ x ∈ xs, P x ∨ Q x) (hbad : ∃ x ∈ xs, Q x) :
    ∃ left x right, xs = left ++ x :: right ∧ (∀ y ∈ left, P y) ∧ Q x := by
  induction xs with
  | nil => exact absurd hbad (by simp)
  | cons x xs ih =>
    by_cases hx : Q x
    · exact ⟨[], x, xs, rfl, by simp, hx⟩
    · obtain ⟨hfirst, hlater⟩ := List.forall_mem_cons.1 h
      have hbad' : ∃ y ∈ xs, Q y := by simpa [hx] using hbad
      obtain ⟨left, y, right, rfl, hleft, hy⟩ := ih hlater hbad'
      exact ⟨x :: left, y, right, rfl,
        List.forall_mem_cons.2 ⟨hfirst.resolve_right hx, hleft⟩, hy⟩

/-- What a related list holds for a member of the other one. -/
theorem exists_mem_of_forall₂ {xs : List α} {ys : List β} (h : List.Forall₂ R xs ys) {x : α}
    (hx : x ∈ xs) : ∃ y ∈ ys, R x y := by
  induction h with
  | nil => cases hx
  | cons hR _ ih =>
    rcases List.mem_cons.1 hx with rfl | hx
    · exact ⟨_, List.mem_cons_self, hR⟩
    · obtain ⟨y, hy, hRy⟩ := ih hx
      exact ⟨y, List.mem_cons_of_mem _ hy, hRy⟩

end List

namespace Json

open Utf8

variable {δ α : Type}

/-- The names of the fields of a record. -/
def Shape.names (shape : Shape δ α) : List String := shape.fields.map (·.name)

/-- Whether the drafts of a record are given by the names that are seen, up to a complete one. -/
structure Drafts (shape : Shape δ α) (draft : List String → δ) (a : α) : Prop where
  nodup_names : shape.names.Nodup
  draft_nil : draft [] = shape.start
  /-- Names of no fields do not change a draft. -/
  draft_cons : ∀ name ∉ shape.names, ∀ seen, draft (name :: seen) = draft seen
  isSet_iff : ∀ field ∈ shape.fields, ∀ seen, field.isSet (draft seen) = true ↔ field.name ∈ seen
  finish_eq : ∀ seen, (∀ name ∈ shape.names, name ∈ seen) → shape.finish (draft seen) = some a

/-! ## The texts of members -/

theorem nextName_member {first : Bool} {before : List UInt8} (hbefore : Separates first before)
    (m : Member) (rest : List UInt8) :
    nextName first (before ++ (m.text ++ rest)) = .ok (some (m.body ++ rest)) := by
  cases first with
  | true =>
    rw [nextName, skipSpace_append hbefore, Member.text, List.cons_append,
      skipSpace_cons (by decide)]
    simp only [if_true]
    rw [if_neg (by decide)]
  | false =>
    obtain ⟨space, after, hspace, hafter, rfl⟩ := hbefore
    rw [List.append_assoc, List.cons_append, nextName, skipSpace_append hspace,
      skipSpace_cons (by decide)]
    simp only [Bool.false_eq_true, if_false, if_true, skipSpace_append hafter, Member.text,
      List.cons_append]
    rw [if_neg (by decide), skipSpace_cons (by decide)]
    simp only [if_true]

theorem nextName_close (first : Bool) {space : List UInt8} (hspace : Blank space)
    (rest : List UInt8) : nextName first (space ++ byte '\x7d' :: rest) = .ok none := by
  rw [nextName, skipSpace_append hspace, skipSpace_cons (by decide)]
  rfl

section Members

variable {fields : List (Field δ)} {draft : δ} {m : Member} {rest : List UInt8}

theorem Member.readText (m : Member) (rest : List UInt8) :
    Json.readText (m.body ++ rest) =
      .ok (m.label, m.before ++ byte ':' :: (m.after ++ (m.value ++ rest))) := by
  simp only [Member.body, List.append_assoc, List.cons_append, m.spells.readText]

theorem readMember_field {field : Field δ} (hfield : fields.find? (·.name = m.label) = some field)
    (hset : field.isSet draft = false) :
    readMember fields draft (m.body ++ rest) =
      (field.reader draft).read (m.after ++ (m.value ++ rest)) := by
  rw [readMember, m.readText]
  simp only [hfield, hset, Bool.false_eq_true, if_false, skipColon_append m.blank_before]

theorem readMember_other (hname : ∀ field ∈ fields, field.name ≠ m.label) (hvalue : IsValue m.value)
    (hrest : EndsNumber rest) : readMember fields draft (m.body ++ rest) = .ok (draft, rest) := by
  have hnone : fields.find? (·.name = m.label) = none := by simpa using hname
  have hskip : skipValue [] (m.after ++ (m.value ++ rest)) = .ok rest :=
    (hvalue.skipValue [] m.blank_after hrest).trans (by rw [skipAfter])
  rw [readMember, m.readText]
  simp only [hnone, skipColon_append m.blank_before, hskip]

theorem readMember_duplicate {field : Field δ}
    (hfield : fields.find? (·.name = m.label) = some field) (hset : field.isSet draft = true) :
    readMember fields draft (m.body ++ rest) = .error (.duplicate m.label) := by
  rw [readMember, m.readText]
  simp only [hfield, hset, if_true]

theorem readMembers_of_close {first : Bool} {s : List UInt8} (h : nextName first s = .ok none) :
    readMembers fields first draft s = .ok (draft, s) := by
  rw [readMembers]
  split
  · next h' => rw [h] at h'; cases h'
  · rfl
  · next h' => rw [h] at h'; cases h'

theorem readMembers_of_member {first : Bool} {s start later : List UInt8} {result : Except Error δ}
    (hnext : nextName first s = .ok (some start))
    (hmember : readMember fields draft start = result.map (·, later)) :
    readMembers fields first draft s =
      result.bind fun draft => readMembers fields false draft later := by
  rw [readMembers]
  split
  · next h => rw [hnext] at h; cases h
  · next h => rw [hnext] at h; cases h
  · next h =>
    rw [hnext] at h
    cases h
    cases result with
    | error e =>
      split
      · next h => rw [hmember] at h; cases h; rfl
      · next h => rw [hmember] at h; cases h
    | ok a =>
      split
      · next h => rw [hmember] at h; cases h
      · next h => rw [hmember] at h; cases h; rfl

theorem closeObject_of_isSet (hset : ∀ field ∈ fields, field.isSet draft = true)
    {space : List UInt8} (hspace : Blank space) (rest : List UInt8) :
    closeObject fields draft (space ++ byte '\x7d' :: rest) = .ok rest := by
  have hnone : fields.find? (fun field => !field.isSet draft) = none := by simpa using hset
  rw [closeObject, hnone]
  simp only [skipSpace_append hspace]
  rw [skipSpace_cons (by decide)]
  rfl

/-- The one field that a draft does not have is missing, whatever the text is. -/
theorem closeObject_missing {name : String} (hname : ∃ field ∈ fields, field.name = name)
    (hset : ∀ field ∈ fields, field.isSet draft = true ↔ field.name ≠ name) (s : List UInt8) :
    closeObject fields draft s = .error (.missing name) := by
  cases hfind : fields.find? (fun field => !field.isSet draft) with
  | none =>
    obtain ⟨field, hfield, heq⟩ := hname
    have hisSet : field.isSet draft = true := by simpa using List.find?_eq_none.1 hfind field hfield
    exact absurd heq ((hset field hfield).1 hisSet)
  | some field =>
    have hunset : field.isSet draft = false := by simpa using List.find?_some hfind
    have heq : field.name = name := by
      by_contra hne
      rw [(hset field (List.mem_of_find?_eq_some hfind)).2 hne] at hunset
      cases hunset
    rw [closeObject, hfind, ← heq]

end Members

/-! ## Labels -/

section Labels

variable {names : List String} {known members later : List Member}

/-- The names of fields among the labels of some members. -/
def fieldNames (names : List String) (members : List Member) : List String :=
  (members.map Member.label).filter (· ∈ names)

theorem mem_fieldNames {name : String} :
    name ∈ fieldNames names members ↔ name ∈ members.map Member.label ∧ name ∈ names := by
  rw [fieldNames, List.mem_filter, decide_eq_true_eq]

theorem nodup_fieldNames_cons {m : Member} :
    (fieldNames names (m :: members)).Nodup ↔
      (m.label ∈ names → m.label ∉ members.map Member.label) ∧
        (fieldNames names members).Nodup := by
  by_cases hname : m.label ∈ names
  · have hcons : fieldNames names (m :: members) = m.label :: fieldNames names members :=
      List.filter_cons_of_pos (by simpa using hname)
    rw [hcons, List.nodup_cons, mem_fieldNames]
    simp only [hname, and_true, forall_true_left]
  · have hcons : fieldNames names (m :: members) = fieldNames names members :=
      List.filter_cons_of_neg (by simpa using hname)
    rw [hcons]
    exact ⟨fun h => ⟨fun h' => absurd h' hname, h⟩, And.right⟩

/-- A name of a field that occurs once is not among the labels before. -/
theorem not_mem_of_nodup_fieldNames {m : Member}
    (h : (fieldNames names (members ++ m :: later)).Nodup) (hname : m.label ∈ names) :
    m.label ∉ members.map Member.label := by
  have happend : fieldNames names (members ++ m :: later) =
      fieldNames names members ++ fieldNames names (m :: later) := by
    rw [fieldNames, List.map_append, List.filter_append]
    rfl
  rw [happend, List.nodup_append] at h
  exact fun hmem => h.2.2 m.label (mem_fieldNames.2 ⟨hmem, hname⟩) m.label
    (mem_fieldNames.2 ⟨List.mem_cons_self, hname⟩) rfl

theorem nodup_fieldNames_of_append (h : (fieldNames names (members ++ later)).Nodup) :
    (fieldNames names members).Nodup :=
  h.sublist (((List.sublist_append_left members later).map _).filter _)

namespace Mixes

/-- What holds of the known members and of the others holds of all. -/
theorem forall_mem (h : Mixes names known members) {P : Member → Prop} (hknown : ∀ m ∈ known, P m)
    (hother : ∀ m : Member, m.label ∉ names → IsValue m.value → P m) : ∀ m ∈ members, P m := by
  obtain ⟨others, hperm, hothers⟩ := h
  intro m hm
  rcases List.mem_append.1 (hperm.mem_iff.1 hm) with hm | hm
  · exact hknown m hm
  · exact hother m (hothers m hm).1 (hothers m hm).2

theorem mem_of_mem (h : Mixes names known members) {m : Member} (hm : m ∈ known) : m ∈ members := by
  obtain ⟨others, hperm, -⟩ := h
  exact hperm.mem_iff.2 (List.mem_append_left others hm)

/-- A field is among the members if it is among the known ones. -/
theorem mem_labels_iff (h : Mixes names known members) {name : String} (hname : name ∈ names) :
    name ∈ members.map Member.label ↔ name ∈ known.map Member.label := by
  constructor
  · intro hmem
    obtain ⟨m, hm, rfl⟩ := List.mem_map.1 hmem
    revert hname
    exact h.forall_mem (P := fun m => m.label ∈ names → m.label ∈ known.map Member.label)
      (fun m hm _ => List.mem_map_of_mem hm) (fun m hm _ hname => absurd hname hm) m hm
  · intro hmem
    obtain ⟨m, hm, rfl⟩ := List.mem_map.1 hmem
    exact List.mem_map_of_mem (h.mem_of_mem hm)

/-- No field is among the members twice if none is among the known ones twice. -/
theorem nodup_fieldNames (h : Mixes names known members) (hknown : (known.map Member.label).Nodup) :
    (fieldNames names members).Nodup := by
  obtain ⟨others, hperm, hothers⟩ := h
  have hnone : (others.map Member.label).filter (· ∈ names) = [] := by
    simpa using fun m hm => (hothers m hm).1
  have hall : (fieldNames names members).Perm ((known.map Member.label).filter (· ∈ names)) := by
    have hlabels := (hperm.map Member.label).filter (· ∈ names)
    rwa [List.map_append, List.filter_append, hnone, List.append_nil] at hlabels
  exact hall.nodup_iff.2 (hknown.sublist List.filter_sublist)

end Mixes

end Labels

/-! ## Objects -/

section Object

variable {shape : Shape δ α} {draft : List String → δ} {a : α} {members later : List Member}
  {s : List UInt8} {e : Error}

/-- Whether a member is read with a result wherever it is the first one for its field. -/
def Member.Reads (shape : Shape δ α) (draft : List String → δ) (m : Member)
    (result : Except Error Unit) : Prop :=
  ∀ seen, (m.label ∈ shape.names → m.label ∉ seen) → ∀ rest, EndsNumber rest →
    readMember shape.fields (draft seen) (m.body ++ rest) =
      (result.map fun _ => draft (m.label :: seen)).map (·, rest)

/-- **The members of an object are read one by one**, as long as each of them is read and no field
occurs twice. -/
theorem readMembers_append (hmembers : ∀ m ∈ members, m.Reads shape draft (.ok ()))
    (hnodup : (fieldNames shape.names members).Nodup) {seen : List String}
    (hseen : ∀ m ∈ members, m.label ∈ shape.names → m.label ∉ seen) {first : Bool}
    (hs : Listed .curly first ((members ++ later).map Member.text) s) (rest : List UInt8) :
    ∃ first' s', Listed .curly first' (later.map Member.text) s' ∧
      readMembers shape.fields first (draft seen) (s ++ rest) =
        readMembers shape.fields first' (draft ((members.map Member.label).reverse ++ seen))
          (s' ++ rest) := by
  induction members generalizing seen first s with
  | nil => exact ⟨first, s, hs, rfl⟩
  | cons m members ih =>
    obtain ⟨hnew, hnodup⟩ := nodup_fieldNames_cons.1 hnodup
    -- The name of this member is seen from here on, and no field of the later ones has it.
    have hlater : ∀ m' ∈ members, m'.label ∈ shape.names → m'.label ∉ m.label :: seen := by
      intro m' hm' hname hmem
      rcases List.mem_cons.1 hmem with heq | hmem
      · exact hnew (heq ▸ hname) (heq ▸ List.mem_map_of_mem hm')
      · exact hseen m' (List.mem_cons_of_mem m hm') hname hmem
    cases hs with
    | @cons _ before _ tail _ hbefore htail =>
      obtain ⟨first', s', hs', hread⟩ := ih
        (fun m' hm' => hmembers m' (List.mem_cons_of_mem m hm')) hnodup hlater htail
      refine ⟨first', s', hs', ?_⟩
      have hnext := nextName_member hbefore m (tail ++ rest)
      have hmember := hmembers m List.mem_cons_self seen (hseen m List.mem_cons_self) _
        (htail.endsNumber rest)
      rw [List.append_assoc, List.append_assoc, readMembers_of_member hnext hmember,
        List.map_cons, List.reverse_cons, List.append_assoc]
      exact hread

/-- Reads the draft of a record. -/
def draftReader (shape : Shape δ α) : Reader δ := ⟨readDraft shape, length_readDraft⟩

theorem readDraft_opens (shape : Shape δ α) {space : List UInt8} (hspace : Blank space)
    (s : List UInt8) :
    readDraft shape (space ++ byte '\x7b' :: s) =
      (readMembers shape.fields true shape.start s).bind fun r =>
        (closeObject shape.fields r.1 r.2).map (r.1, ·) := by
  rw [readDraft, skipSpace_append hspace, skipSpace_cons (by decide)]
  simp only [if_true]
  rw [if_neg (by decide)]
  cases readMembers shape.fields true shape.start s with
  | error e => rfl
  | ok r =>
    simp only [Except.bind]
    cases closeObject shape.fields r.1 r.2 <;> rfl

section AllRead

variable (hdrafts : Drafts shape draft a) (hmembers : ∀ m ∈ members, m.Reads shape draft (.ok ()))
  (hnodup : (fieldNames shape.names members).Nodup)
include hdrafts hmembers hnodup

/-- When all members of an object are read, its closing brace is left. -/
theorem readDraft_of_members (hs : ObjectText members s) {space : List UInt8}
    (hspace : Blank space) (rest : List UInt8) :
    ∃ closing, Blank closing ∧ readDraft shape (space ++ (s ++ rest)) =
      (closeObject shape.fields (draft (members.map Member.label).reverse)
        (closing ++ byte '\x7d' :: rest)).map (draft (members.map Member.label).reverse, ·) := by
  obtain ⟨body, hbody, rfl⟩ := hs
  -- Nothing is left behind the members but the closing brace.
  rw [← List.append_nil members] at hbody
  obtain ⟨first, s, hs, hread⟩ := readMembers_append hmembers hnodup
    (fun _ _ _ => List.not_mem_nil) hbody rest
  cases hs with
  | @nil _ closing hclosing =>
    refine ⟨closing, hclosing, ?_⟩
    rw [List.cons_append, readDraft_opens shape hspace, ← hdrafts.draft_nil, hread,
      List.append_assoc, List.append_nil]
    exact congrArg (Except.bind · _) (readMembers_of_close (nextName_close first hclosing rest))

/-- **A record is read from all its fields**, in any order. -/
theorem reads_record (hs : ObjectText members s)
    (hall : ∀ name ∈ shape.names, name ∈ members.map Member.label) :
    (Reader.record shape).Reads s (.ok a) := by
  have hall' : ∀ name ∈ shape.names, name ∈ (members.map Member.label).reverse :=
    fun name hname => List.mem_reverse.2 (hall name hname)
  have hdraft : (draftReader shape).Reads s
      (.ok (draft (members.map Member.label).reverse)) := by
    intro space rest hspace _
    obtain ⟨closing, hclosing, hread⟩ :=
      readDraft_of_members hdrafts hmembers hnodup hs hspace rest
    have hset : ∀ field ∈ shape.fields,
        field.isSet (draft (members.map Member.label).reverse) = true := fun field hfield =>
      (hdrafts.isSet_iff field hfield _).2 (hall' _ (List.mem_map_of_mem hfield))
    exact hread.trans (by rw [closeObject_of_isSet hset hclosing]; rfl)
  have hrecord := hdraft.filterMap shape.finish
  rwa [Except.bind, imageOf, hdrafts.finish_eq _ hall'] at hrecord

/-- **A field that is missing is found at the closing brace.** -/
theorem reads_record_missing (hs : ObjectText members s) {name : String}
    (hname : name ∈ shape.names)
    (hall : ∀ name' ∈ shape.names, name' ∈ members.map Member.label ↔ name' ≠ name) :
    (Reader.record shape).Reads s (.error (.missing name)) := by
  suffices hdraft : (draftReader shape).Reads s (.error _) from hdraft.filterMap shape.finish
  intro space rest hspace _
  obtain ⟨closing, hclosing, hread⟩ := readDraft_of_members hdrafts hmembers hnodup hs hspace rest
  have hset : ∀ field ∈ shape.fields,
      field.isSet (draft (members.map Member.label).reverse) = true ↔ field.name ≠ name := by
    intro field hfield
    rw [hdrafts.isSet_iff field hfield, List.mem_reverse, hall _ (List.mem_map_of_mem hfield)]
  exact hread.trans (by rw [closeObject_missing (List.mem_map.1 hname) hset]; rfl)

/-- **The first error of a member is the error of the record.** -/
theorem reads_record_error {m : Member} (hs : ObjectText (members ++ m :: later) s)
    (hm : ∀ rest, EndsNumber rest →
      readMember shape.fields (draft (members.map Member.label).reverse) (m.body ++ rest) =
        .error e) :
    (Reader.record shape).Reads s (.error e) := by
  suffices hdraft : (draftReader shape).Reads s (.error _) from hdraft.filterMap shape.finish
  intro space rest hspace _
  obtain ⟨body, hbody, rfl⟩ := hs
  obtain ⟨first, s, hs, hread⟩ := readMembers_append hmembers hnodup
    (fun _ _ _ => List.not_mem_nil) hbody rest
  cases hs with
  | @cons _ before _ tail _ hbefore htail =>
    have hnext := nextName_member hbefore m (tail ++ rest)
    have hmember : readMember shape.fields (draft (members.map Member.label).reverse)
        (m.body ++ (tail ++ rest)) = Except.map (·, tail ++ rest) (.error e) :=
      hm _ (htail.endsNumber rest)
    show readDraft shape (space ++ (byte '\x7b' :: body ++ rest)) = _
    rw [List.cons_append, readDraft_opens shape hspace, ← hdrafts.draft_nil, hread,
      List.append_assoc, List.append_assoc, List.append_nil]
    exact congrArg (Except.bind · _) (readMembers_of_member hnext hmember)

end AllRead

/-- An error of some members of an object is the error of the record, if the other ones are read. -/
theorem reads_record_of_error (hdrafts : Drafts shape draft a)
    (hmembers : ∀ m ∈ members, m.Reads shape draft (.ok ()) ∨ m.Reads shape draft (.error e))
    (hbad : ∃ m ∈ members, m.Reads shape draft (.error e))
    (hnodup : (fieldNames shape.names members).Nodup) (hs : ObjectText members s) :
    (Reader.record shape).Reads s (.error e) := by
  obtain ⟨before, m, later, rfl, hbefore, hm⟩ := exists_append_of_or hmembers hbad
  have hunseen (hname : m.label ∈ shape.names) :
      m.label ∉ (before.map Member.label).reverse := fun hmem =>
    not_mem_of_nodup_fieldNames hnodup hname (List.mem_reverse.1 hmem)
  exact reads_record_error hdrafts hbefore (nodup_fieldNames_of_append hnodup) hs
    fun rest hrest => hm _ hunseen rest hrest

end Object

/-! ## Records -/

section Record

variable {shape : Shape δ α} {draft : List String → δ} {a : α} {result : Except Error Unit}
  {fields : List (String × Json)}

/-- Whether a field is read with a result from a member of an object, into any draft without it. -/
def Field.Gives (field : Field δ) (draft : List String → δ) (member : String × Json)
    (result : Except Error Unit) : Prop :=
  field.name = member.1 ∧ ∀ seen, field.name ∉ seen →
    (field.reader (draft seen)).Gives member.2 (result.map fun _ => draft (field.name :: seen))

/-- Whether fields are read from the members of an object, one of them with a given result and the
others without an error. -/
inductive FieldsGive (draft : List String → δ) (result : Except Error Unit) :
    List (Field δ) → List (String × Json) → Prop
  | one {field : Field δ} {fields : List (Field δ)} {member : String × Json}
      {members : List (String × Json)} (h : field.Gives draft member result)
      (hlater : List.Forall₂ (Field.Gives · draft · (.ok ())) fields members) :
      FieldsGive draft result (field :: fields) (member :: members)
  | cons {field : Field δ} {fields : List (Field δ)} {member : String × Json}
      {members : List (String × Json)} (h : field.Gives draft member (.ok ()))
      (hlater : FieldsGive draft result fields members) :
      FieldsGive draft result (field :: fields) (member :: members)

theorem FieldsGive.forall₂ {fields : List (Field δ)} {members : List (String × Json)}
    (h : FieldsGive draft result fields members) :
    List.Forall₂ (fun field member => field.Gives draft member (.ok ()) ∨
      field.Gives draft member result) fields members := by
  induction h with
  | one h hlater => exact .cons (.inr h) (hlater.imp fun _ _ => .inl)
  | cons h _ ih => exact .cons (.inl h) ih

theorem FieldsGive.exists_mem {fields : List (Field δ)} {members : List (String × Json)}
    (h : FieldsGive draft result fields members) :
    ∃ field ∈ fields, ∃ member ∈ members, field.Gives draft member result := by
  induction h with
  | one h _ => exact ⟨_, List.mem_cons_self, _, List.mem_cons_self, h⟩
  | cons _ _ ih =>
    obtain ⟨field, hfield, member, hmember, h⟩ := ih
    exact ⟨field, List.mem_cons_of_mem _ hfield, member, List.mem_cons_of_mem _ hmember, h⟩

/-- Whether a field finds out how a member of an object is spoiled, whatever the draft has. -/
def Field.Refuses (field : Field δ) (member : String × Json) : Prop :=
  field.name = member.1 ∧ ∀ draft, (field.reader draft).Refuses member.2

theorem Drafts.find?_eq (h : Drafts shape draft a) {field : Field δ} (hfield : field ∈ shape.fields) :
    shape.fields.find? (·.name = field.name) = some field := by
  cases hfind : shape.fields.find? (·.name = field.name) with
  | none => simpa using List.find?_eq_none.1 hfind field hfield
  | some field' =>
    have hname : field'.name = field.name := by simpa using List.find?_some hfind
    have hfield' := List.mem_of_find?_eq_some hfind
    exact congrArg some (List.inj_on_of_nodup_map h.nodup_names hfield' hfield hname)

/-- A member that is for no field is read. -/
theorem Drafts.reads_other (h : Drafts shape draft a) {m : Member} (hname : m.label ∉ shape.names)
    (hvalue : IsValue m.value) : m.Reads shape draft (.ok ()) := by
  intro seen _ rest hrest
  have hne : ∀ field ∈ shape.fields, field.name ≠ m.label :=
    fun field hfield heq => hname (heq ▸ List.mem_map_of_mem hfield)
  rw [readMember_other hne hvalue hrest, ← h.draft_cons m.label hname seen]
  rfl

/-- A member is read as the field that it is for is. -/
theorem Drafts.reads_field (h : Drafts shape draft a) {field : Field δ}
    (hfield : field ∈ shape.fields) {m : Member} (hname : field.name = m.label)
    (hread : ∀ seen, field.name ∉ seen →
      (field.reader (draft seen)).Reads m.value (result.map fun _ => draft (field.name :: seen))) :
    m.Reads shape draft result := by
  intro seen hseen rest hrest
  have hnew : field.name ∉ seen := hname ▸ hseen (hname ▸ List.mem_map_of_mem hfield)
  have hunset : field.isSet (draft seen) = false :=
    Bool.eq_false_iff.2 fun hset => hnew ((h.isSet_iff field hfield seen).1 hset)
  rw [readMember_field (hname ▸ h.find?_eq hfield) hunset, ← hname]
  exact hread seen hnew m.after rest m.blank_after hrest

theorem Field.Gives.reads (hdrafts : Drafts shape draft a) {field : Field δ}
    (hfield : field ∈ shape.fields) {known : Json × Member}
    (h : field.Gives draft (Member.field known) result) (hknown : Arranged known.1 known.2.value) :
    known.2.Reads shape draft result :=
  hdrafts.reads_field hfield h.1 fun seen hseen => h.2 seen hseen _ hknown

theorem names_eq_of_forall₂ {R : Field δ → String × Json → Prop}
    (h : List.Forall₂ R shape.fields fields)
    (hname : ∀ field member, R field member → field.name = member.1) :
    shape.names = fields.map Prod.fst := by
  have hnames : List.Forall₂ Eq (shape.fields.map (·.name)) (fields.map Prod.fst) :=
    List.rel_map hname h
  rwa [List.forall₂_eq_eq_eq] at hnames

/-- **A record is read from an object whose members its fields are read from**, in any order, and an
error of them is its own. -/
theorem gives_record (hdrafts : Drafts shape draft a)
    (h : FieldsGive draft result shape.fields fields) :
    (Reader.record shape).Gives (.object fields) (result.map fun _ => a) := by
  have hfields := h.forall₂
  intro text htext
  obtain ⟨known, members, rfl, harranged, hmixes, hs⟩ := htext.of_object
  have hnames : shape.names = known.map (·.2.label) := by
    rw [names_eq_of_forall₂ hfields fun field member h => h.elim And.left And.left, List.map_map]
    rfl
  have hlabels : (known.map Prod.snd).map Member.label = shape.names := by
    rw [hnames, List.map_map]
    rfl
  rw [← hnames] at hmixes
  have hnodup := hmixes.nodup_fieldNames (hlabels ▸ hdrafts.nodup_names)
  have hreads : ∀ m ∈ members, m.Reads shape draft (.ok ()) ∨ m.Reads shape draft result := by
    refine hmixes.forall_mem (P := fun m => m.Reads shape draft (.ok ()) ∨
      m.Reads shape draft result) ?_ ?_
    · intro m hm
      obtain ⟨k, hk, rfl⟩ := List.mem_map.1 hm
      obtain ⟨field, hfield, h⟩ := exists_mem_of_forall₂ hfields.flip (List.mem_map_of_mem hk)
      exact h.imp (fun h => h.reads hdrafts hfield (harranged k hk))
        fun h => h.reads hdrafts hfield (harranged k hk)
    · exact fun m hname hvalue => .inl (hdrafts.reads_other hname hvalue)
  cases result with
  | ok =>
    refine reads_record hdrafts (fun m hm => (hreads m hm).elim id id) hnodup hs fun name hname => ?_
    rw [hmixes.mem_labels_iff hname, hlabels]
    exact hname
  | error e =>
    obtain ⟨field, hfield, member, hmember, h⟩ := h.exists_mem
    obtain ⟨k, hk, rfl⟩ := List.mem_map.1 hmember
    have hbad := h.reads hdrafts hfield (harranged k hk)
    exact reads_record_of_error hdrafts hreads
      ⟨k.2, hmixes.mem_of_mem (List.mem_map_of_mem hk), hbad⟩ hnodup hs

section Spoiled

variable {left right known : List (Json × Member)} {members : List Member} {s : List UInt8}

theorem field_mem_of_mem (member : String × Json) {k : Json × Member} (hk : k ∈ left ++ right) :
    Member.field k ∈ left.map Member.field ++ member :: right.map Member.field := by
  rcases List.mem_append.1 hk with hk | hk
  · exact List.mem_append_left _ (List.mem_map_of_mem hk)
  · exact List.mem_append_right _ (List.mem_cons_of_mem _ (List.mem_map_of_mem hk))

theorem map_fst_split (name : String) (v : Json) :
    (left.map Member.field ++ (name, v) :: right.map Member.field).map Prod.fst =
      left.map (·.2.label) ++ name :: right.map (·.2.label) := by
  simp [Member.field, Function.comp_def]

variable (hdrafts : Drafts shape draft a)
  (hfields : List.Forall₂ (fun field member => field.Gives draft member (.ok ())) shape.fields fields)
include hdrafts hfields

/-- Arrangements of members that the fields of a record are read from are read. -/
theorem reads_of_mem (hknown : ∀ k ∈ known, Member.field k ∈ fields)
    (h : ∀ k ∈ known, Arranged k.1 k.2.value) :
    ∀ m ∈ known.map Prod.snd, m.Reads shape draft (.ok ()) := by
  intro m hm
  obtain ⟨k, hk, rfl⟩ := List.mem_map.1 hm
  obtain ⟨field, hfield, hgives⟩ := exists_mem_of_forall₂ hfields.flip (hknown k hk)
  exact Field.Gives.reads hdrafts hfield hgives (h k hk)

/-- The record of an object that lacks a member. -/
theorem reads_record_without {name : String} {v : Json}
    (hsplit : fields = left.map Member.field ++ (name, v) :: right.map Member.field)
    (h : ∀ k ∈ left ++ right, Arranged k.1 k.2.value)
    (hmixes : Mixes (left.map (·.2.label) ++ name :: right.map (·.2.label))
      (left.map Prod.snd ++ right.map Prod.snd) members)
    (hs : ObjectText members s) : (Reader.record shape).Reads s (.error (.missing name)) := by
  have hnames : shape.names = left.map (·.2.label) ++ name :: right.map (·.2.label) := by
    rw [names_eq_of_forall₂ hfields fun _ _ h => h.1, hsplit, map_fst_split]
  have hlabels : ((left ++ right).map Prod.snd).map Member.label =
      left.map (·.2.label) ++ right.map (·.2.label) := by simp [Function.comp_def]
  have hnodup := hdrafts.nodup_names
  rw [hnames, List.nodup_middle, List.nodup_cons, ← hlabels] at hnodup
  rw [← hnames, ← List.map_append] at hmixes
  have hreads : ∀ m ∈ members, m.Reads shape draft (.ok ()) :=
    hmixes.forall_mem
      (reads_of_mem hdrafts hfields (fun k hk => hsplit ▸ field_mem_of_mem _ hk) h)
      fun m => hdrafts.reads_other
  refine reads_record_missing hdrafts hreads (hmixes.nodup_fieldNames hnodup.2) hs
    (by simp [hnames]) fun name' hname' => ?_
  rw [hmixes.mem_labels_iff hname']
  constructor
  · rintro hmem rfl
    exact hnodup.1 hmem
  · intro hne
    rw [hnames, List.perm_middle.mem_iff, ← hlabels] at hname'
    exact (List.mem_cons.1 hname').resolve_left hne

/-- The record of an object that has a second member for a field. -/
theorem reads_record_twice {before after : List Member} {second : Member}
    (hfields' : fields = known.map Member.field) (h : ∀ k ∈ known, Arranged k.1 k.2.value)
    (hmixes : Mixes (known.map (·.2.label)) (known.map Prod.snd) (before ++ after))
    (hname : second.label ∈ known.map (·.2.label))
    (hfirst : second.label ∈ before.map Member.label)
    (hs : ObjectText (before ++ second :: after) s) :
    (Reader.record shape).Reads s (.error (.duplicate second.label)) := by
  have hnames : shape.names = known.map (·.2.label) := by
    rw [names_eq_of_forall₂ hfields fun _ _ h => h.1, hfields', List.map_map]
    rfl
  have hlabels : (known.map Prod.snd).map Member.label = shape.names := by
    rw [hnames, List.map_map]
    rfl
  rw [← hnames] at hmixes hname
  have hreads : ∀ m ∈ before ++ after, m.Reads shape draft (.ok ()) :=
    hmixes.forall_mem
      (reads_of_mem hdrafts hfields (fun k hk => hfields' ▸ List.mem_map_of_mem hk) h)
      fun m => hdrafts.reads_other
  have hnodup := nodup_fieldNames_of_append
    (hmixes.nodup_fieldNames (hlabels ▸ hdrafts.nodup_names))
  obtain ⟨field, hfield, heq⟩ := List.mem_map.1 hname
  refine reads_record_error hdrafts (fun m hm => hreads m (List.mem_append_left _ hm)) hnodup hs
    fun rest _ => readMember_duplicate (heq ▸ hdrafts.find?_eq hfield) ?_
  rw [hdrafts.isSet_iff field hfield, heq]
  exact List.mem_reverse.2 hfirst

/-- The record of an object with a member that is spoiled. -/
theorem reads_record_spoiled {v : Json} {m : Member} {e : Error}
    (hsplit : fields = left.map Member.field ++ (m.label, v) :: right.map Member.field)
    {field : Field δ} (hfield : field ∈ shape.fields) (hname : field.name = m.label)
    (hrefuses : ∀ draft, (field.reader draft).Reads m.value (.error e))
    (h : ∀ k ∈ left ++ right, Arranged k.1 k.2.value)
    (hmixes : Mixes (left.map (·.2.label) ++ m.label :: right.map (·.2.label))
      (left.map Prod.snd ++ m :: right.map Prod.snd) members)
    (hs : ObjectText members s) : (Reader.record shape).Reads s (.error e) := by
  have hnames : shape.names = left.map (·.2.label) ++ m.label :: right.map (·.2.label) := by
    rw [names_eq_of_forall₂ hfields fun _ _ h => h.1, hsplit, map_fst_split]
  have hlabels : (left.map Prod.snd ++ m :: right.map Prod.snd).map Member.label = shape.names := by
    rw [hnames]
    simp [Function.comp_def]
  rw [← hnames] at hmixes
  have hbad : m.Reads shape draft (.error e) :=
    hdrafts.reads_field hfield hname fun seen _ => hrefuses (draft seen)
  have hgood := reads_of_mem hdrafts hfields (fun k hk => hsplit ▸ field_mem_of_mem _ hk) h
  have hreads : ∀ m ∈ members, m.Reads shape draft (.ok ()) ∨ m.Reads shape draft (.error e) := by
    refine hmixes.forall_mem (P := fun m => m.Reads shape draft (.ok ()) ∨
      m.Reads shape draft (.error e)) (fun m' hm' => ?_) fun m hm hvalue =>
      .inl (hdrafts.reads_other hm hvalue)
    rcases List.mem_cons.1 (List.perm_middle.mem_iff.1 hm') with rfl | hm'
    · exact .inr hbad
    · exact .inl (hgood m' (List.map_append ▸ hm'))
  exact reads_record_of_error hdrafts hreads ⟨m, hmixes.mem_of_mem (by simp), hbad⟩
    (hmixes.nodup_fieldNames (hlabels ▸ hdrafts.nodup_names)) hs

end Spoiled

/-- **A spoiled object is refused**, if the fields of the record are read from its members. -/
theorem refuses_record (hdrafts : Drafts shape draft a)
    (hfields : FieldsGive draft (.ok ()) shape.fields fields)
    (hrefuses : List.Forall₂ Field.Refuses shape.fields fields) :
    (Reader.record shape).Refuses (.object fields) := by
  have hgives := hfields.forall₂.imp fun _ _ h => h.elim id id
  intro e text htext
  generalize hv : Json.object fields = v at htext
  cases htext with
  | item => cases hv
  | missing h hmixes hs =>
    exact reads_record_without hdrafts hgives (Json.object.inj hv) h hmixes hs
  | duplicate h hmixes hname hfirst _ hs =>
    exact reads_record_twice hdrafts hgives (Json.object.inj hv) h hmixes hname hfirst hs
  | @member left right v _ m _ _ h hspoiled hmixes hs =>
    obtain rfl := Json.object.inj hv
    have hm : (m.label, v) ∈ left.map Member.field ++ (m.label, v) :: right.map Member.field := by
      simp
    obtain ⟨field, hfield, hname, hrefuses⟩ := exists_mem_of_forall₂ hrefuses.flip hm
    exact reads_record_spoiled hdrafts hgives rfl hfield hname
      (fun draft => hrefuses draft _ _ hspoiled) h hmixes hs

end Record

end Json

end HotFrames

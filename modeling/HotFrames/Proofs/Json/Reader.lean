import HotFrames.Json.Record
import HotFrames.Proofs.Json.Arranged
import HotFrames.Proofs.Json.Real

/-!
# Values are read back

A reader gives one result for all arrangements of a value, wherever they stand (`Reader.Gives`), and
for a spoiled one it gives the error that says how it is spoiled (`Reader.Refuses`).  The readers of
texts and numbers give their values, and a reader of lists gives what the items are read as, or the
error of the first item that has one (`gives_list`, `refuses_list`).
-/

namespace HotFrames.Json

open Utf8

variable {α β : Type}

/-- Whether a reader gives a result for a text, wherever it stands. -/
def Reader.Reads (reader : Reader α) (text : List UInt8) (result : Except Error α) : Prop :=
  ∀ space rest : List UInt8, Blank space → EndsNumber rest →
    reader.read (space ++ (text ++ rest)) = result.map (·, rest)

/-- Whether a reader gives a result for every arrangement of a value. -/
def Reader.Gives (reader : Reader α) (v : Json) (result : Except Error α) : Prop :=
  ∀ text, Arranged v text → reader.Reads text result

/-- Whether a reader finds out how an arrangement of a value is spoiled. -/
def Reader.Refuses (reader : Reader α) (v : Json) : Prop :=
  ∀ e text, Spoiled v e text → reader.Reads text (.error e)

/-! ## Single values -/

/-- The value of a function that may have none, which makes an error. -/
def imageOf (f : α → Option β) (a : α) : Except Error β :=
  match f a with
  | some b => .ok b
  | none => .error .malformed

namespace Reader

variable {reader : Reader α} {v : Json} {result : Except Error α} {text : List UInt8}

namespace Reads

/-- A text is read as a whole, with white space around it. -/
theorem readWhole (h : reader.Reads text result) {before after : List UInt8} (hbefore : Blank before)
    (hafter : Blank after) : reader.readWhole (before ++ (text ++ after)) = result := by
  have hends : EndsNumber after := List.append_nil after ▸ endsNumber_append hafter endsNumber_nil
  have hskip : skipSpace after = [] := List.dropWhile_eq_nil_iff.2 hafter
  rw [Reader.readWhole, h before after hbefore hends]
  cases result with
  | error e => rfl
  | ok a => simp [Except.map, hskip]

theorem map (h : reader.Reads text result) (f : α → β) :
    (reader.map f).Reads text (result.map f) := by
  intro space rest hspace hrest
  simp only [Reader.map, h space rest hspace hrest]
  cases result <;> rfl

theorem filterMap (h : reader.Reads text result) (f : α → Option β) :
    (reader.filterMap f).Reads text (result.bind (imageOf f)) := by
  intro space rest hspace hrest
  simp only [Reader.filterMap, h space rest hspace hrest]
  cases result with
  | error e => rfl
  | ok a =>
    simp only [Except.map, Except.bind, imageOf]
    cases f a <;> rfl

end Reads

/-- The written form of a value is read. -/
theorem Gives.readWhole (h : reader.Gives v result) :
    reader.readWhole (encode v.text.toList) = result := by
  have hread := (h _ (arranged_pretty v 0)).readWhole blank_nil blank_nil
  rwa [List.nil_append, List.append_nil, ← String.toList_ofList (l := v.pretty 0)] at hread

theorem Gives.map (h : reader.Gives v result) (f : α → β) :
    (reader.map f).Gives v (result.map f) := fun text htext => (h text htext).map f

theorem Gives.filterMap (h : reader.Gives v result) (f : α → Option β) :
    (reader.filterMap f).Gives v (result.bind (imageOf f)) :=
  fun text htext => (h text htext).filterMap f

theorem Refuses.map (h : reader.Refuses v) (f : α → β) : (reader.map f).Refuses v :=
  fun e text htext => (h e text htext).map f

/-- A value without parts is read from its written form alone. -/
theorem Gives.of_isLeaf (hv : v.isLeaf = true)
    (h : reader.Reads (encode (v.pretty 0)) result) : reader.Gives v result :=
  fun _ htext => htext.eq_of_isLeaf hv ▸ h

/-- A value without parts cannot be spoiled. -/
theorem Refuses.of_isLeaf (hv : v.isLeaf = true) : reader.Refuses v := by
  intro e text htext
  rw [htext.isLeaf_eq_false] at hv
  cases hv

end Reader

theorem gives_string (s : String) : Reader.string.Gives (.string s) (.ok s) := by
  apply Reader.Gives.of_isLeaf rfl
  intro space rest hspace _
  show readString (space ++ (encode (quoted s) ++ rest)) = .ok (s, rest)
  rw [readString, skipSpace_append hspace, encode_quoted, skipSpace_cons (by decide)]
  simp only [if_true, readText_quoted]

theorem gives_natural {bound n : ℕ} (h : n < bound) :
    (Reader.natural bound).Gives (.natural n) (.ok n) :=
  .of_isLeaf rfl fun _ _ hspace hrest => readNatural_toDigits h hspace hrest.endsDigits

theorem gives_real (x : Binary64) : Reader.real.Gives (.real x) (reread x) :=
  .of_isLeaf rfl (rereadAs_reread x)

/-! ## Lists -/

/-- Whether a text begins like an item of an array. -/
def BeginsItem (text : List UInt8) : Prop :=
  ∃ b s, text = b :: s ∧ isSpace b = false ∧ b ≠ byte ']'

theorem ArrayText.beginsItem {items : List (List UInt8)} {s : List UInt8} (h : ArrayText items s) :
    BeginsItem s := by
  obtain ⟨body, -, rfl⟩ := h
  exact ⟨_, _, rfl, by decide, by decide⟩

theorem ObjectText.beginsItem {members : List Member} {s : List UInt8} (h : ObjectText members s) :
    BeginsItem s := by
  obtain ⟨body, -, rfl⟩ := h
  exact ⟨_, _, rfl, by decide, by decide⟩

theorem Arranged.beginsItem {v : Json} {s : List UInt8} (h : Arranged v s) : BeginsItem s := by
  cases h with
  | leaf hleaf =>
    have hascii {c : Char} {cs : List Char} (hc : c.toNat < 0x80)
        (hspace : isSpace (byte c) = false) (hclose : byte c ≠ byte ']') :
        BeginsItem (encode (c :: cs)) := ⟨_, _, encode_cons_ascii hc cs, hspace, hclose⟩
    cases v with
    | null => exact hascii (by decide) (by decide) (by decide)
    | bool value => cases value <;> exact hascii (by decide) (by decide) (by decide)
    | natural value =>
      obtain ⟨b, s, hb, hdigit⟩ := encode_numeral (Numeral.isNumeral_toDigits value)
      refine ⟨b, s, hb, isSpace_of_isDigit hdigit, ?_⟩
      rintro rfl
      exact absurd hdigit (by decide)
    | real value => exact exists_head_realText value
    | string value => exact hascii (by decide) (by decide) (by decide)
    | array items => cases hleaf
    | object members => cases hleaf
  | array _ hs => exact hs.beginsItem
  | object _ _ hs => exact hs.beginsItem

theorem Spoiled.beginsItem {v : Json} {e : Error} {s : List UInt8} (h : Spoiled v e s) :
    BeginsItem s := by
  cases h with
  | missing _ _ hs => exact hs.beginsItem
  | duplicate _ _ _ _ _ hs => exact hs.beginsItem
  | item _ _ hs => exact hs.beginsItem
  | member _ _ _ hs => exact hs.beginsItem

theorem nextItem_item {first : Bool} {before : List UInt8} (hbefore : Separates first before)
    {text : List UInt8} (htext : BeginsItem text) (rest : List UInt8) :
    nextItem first (before ++ (text ++ rest)) = .ok (some (text ++ rest)) := by
  obtain ⟨b, s, rfl, hb, hclose⟩ := htext
  cases first with
  | true =>
    rw [nextItem, skipSpace_append hbefore, List.cons_append, skipSpace_cons hb]
    simp only [if_neg hclose, if_true]
  | false =>
    obtain ⟨space, after, hspace, hafter, rfl⟩ := hbefore
    rw [List.append_assoc, List.cons_append, nextItem, skipSpace_append hspace,
      skipSpace_cons (by decide)]
    simp only [Bool.false_eq_true, if_false, if_true, skipSpace_append hafter, List.cons_append,
      skipSpace_cons hb, if_neg hclose]
    rw [if_neg (by decide)]

theorem nextItem_close (first : Bool) {space : List UInt8} (hspace : Blank space)
    (rest : List UInt8) : nextItem first (space ++ byte ']' :: rest) = .ok none := by
  rw [nextItem, skipSpace_append hspace, skipSpace_cons (by decide)]
  rfl

theorem closeArray_close {space : List UInt8} (hspace : Blank space) (rest : List UInt8) :
    closeArray (space ++ byte ']' :: rest) = .ok rest := by
  rw [closeArray, skipSpace_append hspace, skipSpace_cons (by decide)]
  rfl

theorem readItems_of_close {item : Reader α} {first : Bool} {s : List UInt8}
    (h : nextItem first s = .ok none) : readItems item first s = .ok ([], s) := by
  rw [readItems]
  split
  · next h' => rw [h] at h'; cases h'
  · rfl
  · next h' => rw [h] at h'; cases h'

theorem readItems_of_item {item : Reader α} {first : Bool} {s start later : List UInt8}
    {result : Except Error α} (hnext : nextItem first s = .ok (some start))
    (hitem : item.read start = result.map (·, later)) :
    readItems item first s =
      result.bind fun a => (readItems item false later).map fun r => (a :: r.1, r.2) := by
  rw [readItems]
  split
  · next h => rw [hnext] at h; cases h
  · next h => rw [hnext] at h; cases h
  · next h =>
    rw [hnext] at h
    cases h
    cases result with
    | error e =>
      split
      · next h => rw [hitem] at h; cases h; rfl
      · next h => rw [hitem] at h; cases h
    | ok a =>
      split
      · next h => rw [hitem] at h; cases h
      · next h =>
        rw [hitem] at h
        cases h
        show _ = (readItems item false later).map fun r => (a :: r.1, r.2)
        cases readItems item false later <;> rfl

section List

variable {item : Reader α} {toJson : β → Json} {f : β → Except Error α} {xs : List β}

/-- **The items of an array are read in turn**, up to the first one with an error. -/
theorem readItems_listed {texts : List (List UInt8)} {results : List (Except Error α)}
    (h : List.Forall₂ (fun text result => BeginsItem text ∧ item.Reads text result) texts results)
    {first : Bool} {s : List UInt8} (hs : Listed .square first texts s) (rest : List UInt8) :
    ∃ space, Blank space ∧ readItems item first (s ++ rest) =
      (results.mapM id).map (·, space ++ byte ']' :: rest) := by
  induction h generalizing first s with
  | nil =>
    cases hs with
    | nil hspace =>
      refine ⟨_, hspace, ?_⟩
      rw [List.append_assoc]
      exact readItems_of_close (nextItem_close first hspace rest)
  | @cons text result texts results htext _ ih =>
    obtain ⟨hbegins, hreads⟩ := htext
    cases hs with
    | @cons _ before _ later _ hbefore hlater =>
      obtain ⟨space, hspace, hread⟩ := ih hlater
      refine ⟨space, hspace, ?_⟩
      have hnext := nextItem_item hbefore hbegins (later ++ rest)
      have hitem := hreads [] _ blank_nil (hlater.endsNumber rest)
      rw [List.append_assoc, List.append_assoc, readItems_of_item hnext hitem, hread,
        List.mapM_cons]
      cases result with
      | error e => rfl
      | ok a => cases results.mapM id <;> rfl

theorem reads_list {texts : List (List UInt8)} {results : List (Except Error α)}
    (h : List.Forall₂ (fun text result => BeginsItem text ∧ item.Reads text result) texts results)
    {s : List UInt8} (hs : ArrayText texts s) : (Reader.list item).Reads s (results.mapM id) := by
  intro space rest hspace _
  obtain ⟨body, hbody, rfl⟩ := hs
  obtain ⟨closing, hclosing, hitems⟩ := readItems_listed h hbody rest
  show readList item (space ++ (byte '[' :: body ++ rest)) = _
  rw [readList, skipSpace_append hspace, List.cons_append, skipSpace_cons (by decide)]
  simp only [if_true, hitems]
  cases results.mapM id with
  | error e => rfl
  | ok as => simp only [Except.map, closeArray_close hclosing rest]

theorem gives_list (h : ∀ x, item.Gives (toJson x) (f x)) :
    (Reader.list item).Gives (.array (xs.map toJson)) (xs.mapM f) := by
  intro text htext
  obtain ⟨texts, hitems, hs⟩ := htext.of_array
  have hreads : List.Forall₂ (fun text result => BeginsItem text ∧ item.Reads text result) texts
      (xs.map f) := by
    rw [List.forall₂_map_left_iff] at hitems
    rw [List.forall₂_map_right_iff]
    exact hitems.flip.imp fun text x htext => ⟨htext.beginsItem, h x text htext⟩
  have hlist := reads_list hreads hs
  rwa [List.mapM_map] at hlist

theorem exists_of_mapM {as : List α} (h : xs.mapM f = .ok as) : ∀ x ∈ xs, ∃ a, f x = .ok a := by
  induction xs generalizing as with
  | nil => simp
  | cons x xs ih =>
    rw [List.mapM_cons] at h
    cases hx : f x with
    | error e =>
      rw [hx] at h
      cases h
    | ok a =>
      cases hxs : xs.mapM f with
      | error e =>
        rw [hx, hxs] at h
        cases h
      | ok as => exact List.forall_mem_cons.2 ⟨⟨a, hx⟩, ih hxs⟩

/-- What is read of the arrangements of some values that all have a result. -/
theorem exists_reads {items : List Json} {texts : List (List UInt8)}
    (htexts : List.Forall₂ Arranged items texts) (h : ∀ v ∈ items, ∃ a, item.Gives v (.ok a)) :
    ∃ as : List α, List.Forall₂ (fun text result => BeginsItem text ∧ item.Reads text result) texts
      (as.map .ok) := by
  induction htexts with
  | nil => exact ⟨[], .nil⟩
  | @cons v text items texts htext _ ih =>
    obtain ⟨a, ha⟩ := h v List.mem_cons_self
    obtain ⟨as, has⟩ := ih fun v' hv' => h v' (List.mem_cons_of_mem v hv')
    exact ⟨a :: as, .cons ⟨htext.beginsItem, ha text htext⟩ has⟩

theorem mapM_error_of_ok (as : List α) (e : Error) (later : List (Except Error α)) :
    (as.map Except.ok ++ Except.error e :: later).mapM id = .error e := by
  induction as with
  | nil => rfl
  | cons a as ih =>
    rw [List.map_cons, List.cons_append, List.mapM_cons, ih]
    rfl

/-- A spoiled item spoils a list whose items would be read. -/
theorem refuses_list (hgives : ∀ x, item.Gives (toJson x) (f x))
    (hrefuses : ∀ x a, f x = .ok a → item.Refuses (toJson x)) {as : List α}
    (h : xs.mapM f = .ok as) : (Reader.list item).Refuses (.array (xs.map toJson)) := by
  intro e text htext
  obtain ⟨left, v, right, leftTexts, text, rightTexts, hsplit, hleft, hright, hspoiled, hs⟩ :=
    htext.of_array
  have hitems : ∀ v' ∈ left ++ v :: right, (∃ a, item.Gives v' (.ok a)) ∧ item.Refuses v' := by
    rw [← hsplit, List.forall_mem_map]
    intro x hx
    obtain ⟨a, ha⟩ := exists_of_mapM h x hx
    exact ⟨⟨a, ha ▸ hgives x⟩, hrefuses x a ha⟩
  obtain ⟨before, hbefore⟩ := exists_reads hleft fun v' hv' => (hitems v' (by simp [hv'])).1
  obtain ⟨after, hafter⟩ := exists_reads hright fun v' hv' => (hitems v' (by simp [hv'])).1
  have hspoils : item.Reads text (.error e) := (hitems v (by simp)).2 e text hspoiled
  have hlist := reads_list
    (List.rel_append hbefore (List.Forall₂.cons ⟨hspoiled.beginsItem, hspoils⟩ hafter)) hs
  rwa [mapM_error_of_ok] at hlist

end List

end HotFrames.Json

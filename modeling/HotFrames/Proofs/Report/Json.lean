import HotFrames.Proofs.Json.Record
import HotFrames.Report.Json

/-!
# Written reports are read back

The JSON text of a report, like every arrangement of its value, is read as that report with its
percentages read back (`Report.reread`).  The drafts of a record are what it has of the fields that
were seen (`Report.part`), whatever the order was.
-/

namespace HotFrames.Report

open Json

theorem gives_samples (n : Samples) : samplesReader.Gives (.natural n.val) (.ok n) := by
  have h := (gives_natural n.lt).filterMap Samples.ofNat?
  rw [Except.bind, imageOf, Samples.ofNat?_eq_some_iff.2 rfl] at h
  exact h

/-- An entry read back. -/
def Entry.reread (e : Entry) : Except Json.Error Entry :=
  (Json.reread e.percentage).map fun percentage => { e with percentage }

/-- A section read back. -/
def Section.reread (s : Section) : Except Json.Error Section :=
  (s.entries.mapM Entry.reread).map fun entries => { s with entries }

/-- A report read back. -/
def reread (r : Report) : Except Json.Error Report :=
  (r.sections.mapM Section.reread).map fun sections => { r with sections }

/-! ## Drafts -/

section DraftField

variable {δ α : Type} {draft : List String → δ} {name : String} {get : δ → Option α}
  {set : δ → α → δ} {reader : Reader α} {v : Json}

/-- A field of a draft is read as its value is, if setting it in a draft gives the one that has it. -/
theorem draftField_gives {result : Except Json.Error α} (h : reader.Gives v result)
    (hset : ∀ a seen, result = .ok a → set (draft seen) a = draft (name :: seen)) :
    (draftField name get set reader).Gives draft (name, v) (result.map fun _ => ()) := by
  refine ⟨rfl, fun seen _ text htext => ?_⟩
  have hread := (h text htext).map (set (draft seen))
  cases result with
  | error e => exact hread
  | ok a => rwa [Except.map, hset a seen rfl] at hread

theorem draftField_refuses (h : reader.Refuses v) :
    (draftField name get set reader).Refuses (name, v) :=
  ⟨rfl, fun draft => h.map (set draft)⟩

/-- A record is read with a part in it, if it is read with whatever its part is read as. -/
theorem gives_of_part {β : Type} {result : Except Json.Error β} {f : β → α} (b : β)
    (h : ∀ b, (∀ b', result = .ok b' → b' = b) →
      reader.Gives v ((result.map fun _ => ()).map fun _ => f b)) :
    reader.Gives v (result.map f) := by
  cases result with
  | error e => exact h b nofun
  | ok b' => exact h b' fun _ heq => (Except.ok.inj heq).symm

end DraftField

/-- An entry with the fields of some names. -/
def Entry.part (e : Entry) (seen : List String) : Entry.Draft where
  frame := if "frame" ∈ seen then some e.frame else none
  samples := if "samples" ∈ seen then some e.samples else none
  percentage := if "percentage" ∈ seen then some e.percentage else none

/-- A section with the fields of some names. -/
def Section.part (s : Section) (seen : List String) : Section.Draft where
  title := if "title" ∈ seen then some s.title else none
  entries := if "entries" ∈ seen then some s.entries else none

/-- A report with the fields of some names. -/
def part (r : Report) (seen : List String) : Draft where
  version := if "version" ∈ seen then some r.version else none
  source := if "source" ∈ seen then some r.source else none
  total := if "total_samples" ∈ seen then some r.total else none
  sections := if "sections" ∈ seen then some r.sections else none
  generatedAt := if "generated_at" ∈ seen then some r.generatedAt else none

theorem drafts_entry (e : Entry) : Drafts Entry.shape e.part e where
  nodup_names := by decide
  draft_nil := rfl
  draft_cons name hname seen := by
    simp only [Shape.names, Entry.shape, draftField, List.map_cons, List.map_nil, List.mem_cons,
      List.not_mem_nil, or_false, not_or] at hname
    simp [Entry.part, @eq_comm _ _ name, hname]
  isSet_iff := by simp [Entry.shape, draftField, Entry.part]
  finish_eq seen hseen := by
    simp only [Shape.names, Entry.shape, draftField, List.map_cons, List.map_nil,
      List.forall_mem_cons] at hseen
    simp [Entry.shape, Entry.part, hseen]

theorem drafts_section (s : Section) : Drafts Section.shape s.part s where
  nodup_names := by decide
  draft_nil := rfl
  draft_cons name hname seen := by
    simp only [Shape.names, Section.shape, draftField, List.map_cons, List.map_nil, List.mem_cons,
      List.not_mem_nil, or_false, not_or] at hname
    simp [Section.part, @eq_comm _ _ name, hname]
  isSet_iff := by simp [Section.shape, draftField, Section.part]
  finish_eq seen hseen := by
    simp only [Shape.names, Section.shape, draftField, List.map_cons, List.map_nil,
      List.forall_mem_cons] at hseen
    simp [Section.shape, Section.part, hseen]

theorem drafts_report (r : Report) : Drafts shape r.part r where
  nodup_names := by decide
  draft_nil := rfl
  draft_cons name hname seen := by
    simp only [Shape.names, shape, draftField, List.map_cons, List.map_nil, List.mem_cons,
      List.not_mem_nil, or_false, not_or] at hname
    simp [part, @eq_comm _ _ name, hname]
  isSet_iff := by simp [shape, draftField, part]
  finish_eq seen hseen := by
    simp only [Shape.names, shape, draftField, List.map_cons, List.map_nil,
      List.forall_mem_cons] at hseen
    simp [shape, part, hseen]

/-! ## Reading -/

/-- How the fields of an entry are read, which has its percentage from its text in the end. -/
theorem fields_entry {e : Entry} {percentage : Binary64}
    (h : ∀ x, Json.reread e.percentage = .ok x → x = percentage) :
    FieldsGive { e with percentage }.part ((Json.reread e.percentage).map fun _ => ())
      Entry.shape.fields [("frame", .string e.frame), ("samples", .natural e.samples.val),
        ("percentage", .real e.percentage)] := by
  refine .cons (draftField_gives (gives_string e.frame) ?_) <|
    .cons (draftField_gives (gives_samples e.samples) ?_) <|
    .one (draftField_gives (gives_real e.percentage) ?_) .nil
  · rintro _ seen ⟨⟩
    simp [Entry.part]
  · rintro _ seen ⟨⟩
    simp [Entry.part]
  · intro x seen hx
    simp [Entry.part, h x hx]

theorem gives_entry (e : Entry) : (Reader.record Entry.shape).Gives e.toJson e.reread :=
  gives_of_part e.percentage fun percentage h =>
    gives_record (drafts_entry { e with percentage }) (fields_entry h)

/-- How the fields of a section are read, which has its entries from their texts in the end. -/
theorem fields_section {s : Section} {entries : List Entry}
    (h : ∀ es, s.entries.mapM Entry.reread = .ok es → es = entries) :
    FieldsGive { s with entries }.part ((s.entries.mapM Entry.reread).map fun _ => ())
      Section.shape.fields [("title", .string s.title),
        ("entries", .array (s.entries.map Entry.toJson))] := by
  refine .cons (draftField_gives (gives_string s.title) ?_) <|
    .one (draftField_gives (gives_list gives_entry) ?_) .nil
  · rintro _ seen ⟨⟩
    simp [Section.part]
  · intro es seen hes
    simp [Section.part, h es hes]

theorem gives_section (s : Section) : (Reader.record Section.shape).Gives s.toJson s.reread :=
  gives_of_part s.entries fun entries h =>
    gives_record (drafts_section { s with entries }) (fields_section h)

/-- How the fields of a report are read, which has its sections from their texts in the end. -/
theorem fields_report {r : Report} {sections : List Section}
    (h : ∀ ss, r.sections.mapM Section.reread = .ok ss → ss = sections) :
    FieldsGive { r with sections }.part ((r.sections.mapM Section.reread).map fun _ => ())
      shape.fields [("version", .string r.version), ("source", .string r.source),
        ("total_samples", .natural r.total.val),
        ("sections", .array (r.sections.map Section.toJson)),
        ("generated_at", .string r.generatedAt)] := by
  refine .cons (draftField_gives (gives_string r.version) ?_) <|
    .cons (draftField_gives (gives_string r.source) ?_) <|
    .cons (draftField_gives (gives_samples r.total) ?_) <|
    .one (draftField_gives (gives_list gives_section) ?_) <|
    .cons (draftField_gives (gives_string r.generatedAt) ?_) .nil
  case refine_4 =>
    intro ss seen hss
    simp [part, h ss hss]
  all_goals
    rintro _ seen ⟨⟩
    simp [part]

theorem gives_report (r : Report) : (Reader.record shape).Gives r.toJson r.reread :=
  gives_of_part r.sections fun sections h =>
    gives_record (drafts_report { r with sections }) (fields_report h)

/-- **The JSON text of a report is read as the report read back.** -/
theorem ofJsonText_jsonText (r : Report) :
    ofJsonText (Utf8.encode r.jsonText.toList) = r.reread := (gives_report r).readWhole

/-! ## What is read back -/

section List

variable {α β γ ε : Type} {f : α → Except ε β} {xs : List α}

theorem exists_mapM {R : α → β → Prop} (h : ∀ x ∈ xs, ∃ y, f x = .ok y ∧ R x y) :
    ∃ ys, xs.mapM f = .ok ys ∧ List.Forall₂ R xs ys := by
  induction xs with
  | nil => exact ⟨[], rfl, .nil⟩
  | cons x xs ih =>
    obtain ⟨y, hy, hxy⟩ := h x List.mem_cons_self
    obtain ⟨ys, hys, hrest⟩ := ih fun z hz => h z (List.mem_cons_of_mem x hz)
    refine ⟨y :: ys, ?_, .cons hxy hrest⟩
    rw [List.mapM_cons, hy, hys]
    rfl

theorem map_eq_of_forall₂ {g : α → γ} {g' : β → γ} {ys : List β}
    (h : List.Forall₂ (fun x y => g' y = g x) xs ys) : ys.map g' = xs.map g := by
  induction h with
  | nil => rfl
  | cons hg _ ih => rw [List.map_cons, List.map_cons, hg, ih]

theorem mapM_error {e : ε} (h : ∀ x ∈ xs, (∃ y, f x = .ok y) ∨ f x = .error e)
    (hbad : ∃ x ∈ xs, f x = .error e) : xs.mapM f = .error e := by
  induction xs with
  | nil => exact absurd hbad (by simp)
  | cons x xs ih =>
    rw [List.mapM_cons]
    rcases h x List.mem_cons_self with ⟨y, hy⟩ | he
    · have hlater : ∃ z ∈ xs, f z = .error e := by
        obtain ⟨z, hz, hze⟩ := hbad
        rcases List.mem_cons.1 hz with rfl | hz
        · rw [hy] at hze
          cases hze
        · exact ⟨z, hz, hze⟩
      rw [hy, ih (fun z hz => h z (List.mem_cons_of_mem x hz)) hlater]
      rfl
    · rw [he]
      rfl

end List

/-- The texts and counts of a section. -/
def Section.content (s : Section) : String × List (String × Samples) :=
  (s.title, s.entries.map fun e => (e.frame, e.samples))

/-- The texts and counts of a report: all that it holds but the percentages. -/
def content (r : Report) : String × String × Samples × List (String × List (String × Samples)) ×
    String :=
  (r.version, r.source, r.total, r.sections.map Section.content, r.generatedAt)

/-- The percentages of a section. -/
def Section.percentages (s : Section) : List Binary64 := s.entries.map (·.percentage)

/-- The percentages of a report. -/
def percentages (r : Report) : List Binary64 := r.sections.flatMap Section.percentages

/-- The error for a percentage that is not finite. -/
def notFinite : Json.Error := .mismatch .null "f64"

section Related

variable {R : Binary64 → Binary64 → Prop}

theorem Entry.reread_related {e : Entry}
    (h : ∃ y, Json.reread e.percentage = .ok y ∧ R e.percentage y) :
    ∃ e', e.reread = .ok e' ∧ (e'.frame, e'.samples) = (e.frame, e.samples) ∧
      R e.percentage e'.percentage := by
  obtain ⟨percentage, hp, hR⟩ := h
  exact ⟨{ e with percentage }, by rw [Entry.reread, hp]; rfl, rfl, hR⟩

theorem Section.reread_related {s : Section}
    (h : ∀ x ∈ s.percentages, ∃ y, Json.reread x = .ok y ∧ R x y) :
    ∃ s', s.reread = .ok s' ∧ s'.content = s.content ∧
      List.Forall₂ R s.percentages s'.percentages := by
  obtain ⟨entries, hentries, hrelated⟩ := exists_mapM fun e (he : e ∈ s.entries) =>
    Entry.reread_related (h e.percentage (List.mem_map_of_mem he))
  refine ⟨{ s with entries }, by rw [Section.reread, hentries]; rfl, ?_, ?_⟩
  · exact congrArg (s.title, ·) (map_eq_of_forall₂ (hrelated.imp fun _ _ he => he.1))
  · exact List.rel_map (fun _ _ he => he.2) hrelated

/-- **A report is read back with the texts and counts it has** if its percentages are read back, and
each of them is read back as one that it is related to. -/
theorem reread_related {r : Report} (h : ∀ x ∈ r.percentages, ∃ y, Json.reread x = .ok y ∧ R x y) :
    ∃ r', r.reread = .ok r' ∧ r'.content = r.content ∧
      List.Forall₂ R r.percentages r'.percentages := by
  obtain ⟨sections, hsections, hrelated⟩ := exists_mapM fun s (hs : s ∈ r.sections) =>
    Section.reread_related fun x hx => h x (List.mem_flatMap.2 ⟨s, hs, hx⟩)
  refine ⟨{ r with sections }, by rw [reread, hsections]; rfl, ?_, ?_⟩
  · exact congrArg (fun sections => (r.version, r.source, r.total, sections, r.generatedAt))
      (map_eq_of_forall₂ (hrelated.imp fun _ _ hs => hs.1))
  · exact List.rel_flatMap hrelated fun _ _ hs => hs.2

end Related

/-- Moderate percentages are read back. -/
theorem exists_reread_of_isAtMost {xs : List Binary64} (h : ∀ x ∈ xs, x.IsAtMost (10 ^ 40)) :
    ∀ x ∈ xs, ∃ y, Json.reread x = .ok y ∧ True := fun x hx => by
  obtain ⟨y, hy⟩ := exists_reread (h x hx)
  exact ⟨y, hy, trivial⟩

theorem Entry.reread_error {e : Entry} (h : e.percentage.isFinite = false) :
    e.reread = .error notFinite := by
  rw [Entry.reread, reread_of_not_isFinite h]
  rfl

theorem Section.reread_error {s : Section}
    (h : ∀ x ∈ s.percentages, x.isFinite = true → x.IsAtMost (10 ^ 40))
    (hbad : ∃ x ∈ s.percentages, x.isFinite = false) : s.reread = .error notFinite := by
  have hmap : s.entries.mapM Entry.reread = .error notFinite := by
    apply mapM_error
    · intro e he
      cases hfinite : e.percentage.isFinite with
      | true =>
        obtain ⟨y, hy⟩ := exists_reread (h _ (List.mem_map_of_mem he) hfinite)
        obtain ⟨e', he', -⟩ := Entry.reread_related (R := fun _ _ => True) ⟨y, hy, trivial⟩
        exact .inl ⟨e', he'⟩
      | false => exact .inr (Entry.reread_error hfinite)
    · obtain ⟨x, hx, hfinite⟩ := hbad
      obtain ⟨e, he, rfl⟩ := List.mem_map.1 hx
      exact ⟨e, he, Entry.reread_error hfinite⟩
  rw [Section.reread, hmap]
  rfl

/-- **A report with moderate percentages is read back** with the texts and counts it has. -/
theorem reread_ok {r : Report} (h : ∀ x ∈ r.percentages, x.IsAtMost (10 ^ 40)) :
    ∃ r', r.reread = .ok r' ∧ r'.content = r.content := by
  obtain ⟨r', hr', hcontent, -⟩ := reread_related (exists_reread_of_isAtMost h)
  exact ⟨r', hr', hcontent⟩

/-- **A percentage that is not finite makes a report unreadable.** -/
theorem reread_error {r : Report}
    (h : ∀ x ∈ r.percentages, x.isFinite = true → x.IsAtMost (10 ^ 40))
    (hbad : ∃ x ∈ r.percentages, x.isFinite = false) : r.reread = .error notFinite := by
  have hsection (s : Section) (hs : s ∈ r.sections) :
      ∀ x ∈ s.percentages, x.isFinite = true → x.IsAtMost (10 ^ 40) :=
    fun x hx => h x (List.mem_flatMap.2 ⟨s, hs, hx⟩)
  have hmap : r.sections.mapM Section.reread = .error notFinite := by
    apply mapM_error
    · intro s hs
      by_cases hfinite : ∃ x ∈ s.percentages, x.isFinite = false
      · exact .inr (Section.reread_error (hsection s hs) hfinite)
      · have hall : ∀ x ∈ s.percentages, x.IsAtMost (10 ^ 40) := fun x hx =>
          hsection s hs x hx (Bool.not_eq_false _ ▸ fun hx' => hfinite ⟨x, hx, hx'⟩)
        obtain ⟨s', hs', -⟩ := Section.reread_related (exists_reread_of_isAtMost hall)
        exact .inl ⟨s', hs'⟩
    · obtain ⟨x, hx, hfinite⟩ := hbad
      obtain ⟨s, hs, hx⟩ := List.mem_flatMap.1 hx
      exact ⟨s, hs, Section.reread_error (hsection s hs) ⟨x, hx, hfinite⟩⟩
  rw [reread, hmap]
  rfl

end HotFrames.Report

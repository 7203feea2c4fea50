import HotFrames.Proofs.Binary64.Arithmetic
import HotFrames.Proofs.Report.Saved

/-!
# Rearranged reports

A report is read from every arrangement of its JSON value as it is from the text that is written
for it, and a field that is missing or occurs twice in one of the objects is named
(`Report.load_rearranged`).  Whatever stands before that place is read without an error, because the
percentages are moderate.
-/

namespace HotFrames.Report

open Json World

/-! ## Spoiled reports -/

theorem exists_of_map_eq_ok {α β ε : Type} {f : α → β} {result : Except ε α} {b : β}
    (h : result.map f = .ok b) : ∃ a, result = .ok a := by
  cases result with
  | error e => cases h
  | ok a => exact ⟨a, rfl⟩

theorem refuses_entry (e e' : Entry) (h : e.reread = .ok e') :
    (Reader.record Entry.shape).Refuses e.toJson := by
  obtain ⟨percentage, hpercentage⟩ := exists_of_map_eq_ok h
  have hfields := @fields_entry e percentage fun x hx => Except.ok.inj (hx.symm.trans hpercentage)
  rw [hpercentage] at hfields
  exact refuses_record (drafts_entry _) hfields <|
    .cons (draftField_refuses (.of_isLeaf rfl)) <|
    .cons (draftField_refuses (.of_isLeaf rfl)) <|
    .cons (draftField_refuses (.of_isLeaf rfl)) .nil

theorem refuses_section (s s' : Section) (h : s.reread = .ok s') :
    (Reader.record Section.shape).Refuses s.toJson := by
  obtain ⟨entries, hentries⟩ := exists_of_map_eq_ok h
  have hfields := @fields_section s entries fun es hes => Except.ok.inj (hes.symm.trans hentries)
  rw [hentries] at hfields
  exact refuses_record (drafts_section _) hfields <|
    .cons (draftField_refuses (.of_isLeaf rfl)) <|
    .cons (draftField_refuses (refuses_list gives_entry refuses_entry hentries)) .nil

/-- **A spoiled report is refused**, if its percentages can be read. -/
theorem refuses_report (r r' : Report) (h : r.reread = .ok r') :
    (Reader.record shape).Refuses r.toJson := by
  obtain ⟨sections, hsections⟩ := exists_of_map_eq_ok h
  have hfields := @fields_report r sections fun ss hss => Except.ok.inj (hss.symm.trans hsections)
  rw [hsections] at hfields
  exact refuses_record (drafts_report _) hfields <|
    .cons (draftField_refuses (.of_isLeaf rfl)) <|
    .cons (draftField_refuses (.of_isLeaf rfl)) <|
    .cons (draftField_refuses (.of_isLeaf rfl)) <|
    .cons (draftField_refuses (refuses_list gives_section refuses_section hsections)) <|
    .cons (draftField_refuses (.of_isLeaf rfl)) .nil

/-! ## Files -/

/-- **A report is read from every arrangement of its text**, with white space around it, as it is from
the text that is written, and so with the texts and counts it has.  An arrangement that is spoiled in
one place, wherever that is, is refused with the field that is missing there or occurs twice. -/
theorem load_rearranged (r : Report)
    (hrange : ∀ x ∈ r.percentages, x.isFinite = true ∧ 0 ≤ x.toRat ∧ x.toRat ≤ 100) :
    Arranged r.toJson (Utf8.encode r.jsonText.toList) ∧
    ∃ r', r'.content = r.content ∧
      ∀ {path : Path} {w : World} {place : Place w.files.root} {before text after : List UInt8},
        w.files.lookup path = .ok place → place.node = .file (before ++ (text ++ after)) →
        Blank before → Blank after →
        (Arranged r.toJson text → (load host path w).1 = .ok r') ∧
        ∀ e, Spoiled r.toJson e text →
          (load host path w).1 = .error (.badJson e) ∧ e.errorClass = .data ∧
            ∃ name, e = .missing name ∧ e.message = "missing field `" ++ name ++ "`" ∨
              e = .duplicate name ∧ e.message = "duplicate field `" ++ name ++ "`" := by
  have hmoderate : ∀ x ∈ r.percentages, x.IsAtMost (10 ^ 40) := by
    intro x hx
    obtain ⟨hfinite, hnonneg, hle⟩ := hrange x hx
    exact Binary64.isAtMost_of_toRat hfinite hnonneg (hle.trans (by norm_num))
  obtain ⟨r', hr', hcontent⟩ := reread_ok hmoderate
  have hwritten : Arranged r.toJson (Utf8.encode r.jsonText.toList) := by
    rw [jsonText, Json.text, String.toList_ofList]
    exact arranged_pretty r.toJson 0
  refine ⟨hwritten, r', hcontent, ?_⟩
  intro path w place before text after hplace hfile hbefore hafter
  rw [load_of_file hplace hfile, ofJsonText]
  refine ⟨fun htext => ?_, fun e htext => ⟨?_, ?_⟩⟩
  · rw [(gives_report r text htext).readWhole hbefore hafter, hr']
    rfl
  · rw [(refuses_report r r' hr' e text htext).readWhole hbefore hafter]
    rfl
  · obtain ⟨name, rfl | rfl⟩ := htext.error_cases
    · exact ⟨rfl, name, .inl ⟨rfl, rfl⟩⟩
    · exact ⟨rfl, name, .inr ⟨rfl, rfl⟩⟩

/-- A report whose members stand in reverse behind a further one, and two that are spoiled. -/
theorem load_rearranged_reversed :
    let r : Report :=
      { version := "1", source := "p", total := .zero
        sections := [{ title := "t", entries :=
          [{ frame := "f", samples := .zero, percentage := .ofBits 0x4059000000000000 }] }]
        generatedAt := "" }
    let world (content : List UInt8) : World :=
      { files := { root := .directory [("p", .file content)], here := [] }, out := {}, time := "" }
    let loaded (text : String) := (load host ⟨"p"⟩ (world (Utf8.encode text.toList))).1
    let sections := "\"sections\": " ++ (Json.array (r.sections.map Section.toJson)).text
    (∃ r', r'.content = r.content ∧ loaded r.jsonText = .ok r' ∧
      loaded (" \x7b\"x\": [\x7b\"\":-1E9\x7d],\"generated_at\": \"\"," ++ sections ++
        ",\"total_samples\": 0,\"source\": \"p\",\"version\": \"1\"\x7d\n") = .ok r') ∧
    loaded ("\x7b\"version\": \"1\",\"total_samples\": 0," ++ sections ++
      ",\"generated_at\": \"\"\x7d") = .error (.badJson (.missing "source")) ∧
    loaded ("\x7b\"version\": \"1\",\"source\": \"p\",\"total_samples\": 0," ++ sections ++
      ",\"generated_at\": \"\",\"version\": null\x7d") = .error (.badJson (.duplicate "version")) := by
  intro r world loaded sections
  obtain ⟨hself, r', hcontent, hload⟩ := load_rearranged r (by decide +kernel)
  have hplace (content : List UInt8) : ∃ place, (world content).files.lookup ⟨"p"⟩ = .ok place ∧
      place.node = .file content := ⟨_, rfl, rfl⟩
  have hloaded {before body after : List UInt8} (text : String) (hbefore : Blank before)
      (hafter : Blank after) (htext : Utf8.encode text.toList = before ++ (body ++ after)) :
      (Arranged r.toJson body → loaded text = .ok r') ∧
        ∀ e, Spoiled r.toJson e body → loaded text = .error (.badJson e) := by
    obtain ⟨place, hlookup, hnode⟩ := hplace (Utf8.encode text.toList)
    obtain ⟨hok, herror⟩ := hload hlookup (hnode.trans (congrArg Node.file htext)) hbefore hafter
    exact ⟨hok, fun e he => (herror e he).1⟩
  have hrefused {text : String} {body : List UInt8}
      (htext : Utf8.encode text.toList = [] ++ (body ++ [])) {e : Json.Error}
      (h : Spoiled r.toJson e body) : loaded text = .error (.badJson e) :=
    (hloaded text blank_nil blank_nil htext).2 e h
  have hwritten : loaded r.jsonText = .ok r' := by
    refine (@hloaded [] (Utf8.encode r.jsonText.toList) [] _ blank_nil blank_nil ?_).1 hself
    rw [List.append_nil, List.nil_append]
  let version := ("version", Json.string "1")
  let source := ("source", Json.string "p")
  let later := [("total_samples", Json.natural 0),
    ("sections", .array (r.sections.map Section.toJson)), ("generated_at", .string "")]
  let known := writtenMembers 0 (version :: source :: later)
  have hknown := arranged_writtenMembers 0 (version :: source :: later)
  -- The further member is an object in an array, with an empty name in it.
  let name := [byte '"', byte '"', byte ':']
  let number := byte '-' :: Utf8.encode ['1', 'E', '9']
  let inner := byte '\x7b' :: (compact [name ++ number] ++ [byte '\x7d'])
  let other : Member := .written "x" (byte '[' :: (compact [inner] ++ [byte ']']))
  have hname : IsName name := ⟨[], [], [], .nil, blank_nil, blank_nil, rfl⟩
  have hnumber : IsValue number :=
    .scalar (.negative ⟨['1'], [], ['E', '9'], ⟨rfl, by decide⟩, .inl rfl,
      .inr ⟨'E', [], ['9'], .inr rfl, .inl rfl, rfl, rfl⟩, rfl⟩)
  have hinner : IsValue inner := @IsValue.object [(name, number)] _
    (List.forall_mem_singleton.2 hname) (List.forall_mem_singleton.2 hnumber)
    (listed_compact .curly _)
  have hother : IsValue other.value :=
    @IsValue.array [inner] _ (List.forall_mem_singleton.2 hinner) (listed_compact .square _)
  have harranged : Arranged r.toJson _ :=
    .object hknown ⟨[other], (known.map Prod.snd ++ [other]).reverse_perm,
      List.forall_mem_singleton.2 ⟨by decide, hother⟩⟩ (objectText_compact _)
  have hmissing : Spoiled r.toJson (.missing "source") _ :=
    @Spoiled.missing (writtenMembers 0 [version]) (writtenMembers 0 later) "source"
      (.string "p") _ _ (arranged_writtenMembers 0 (version :: later)) (mixes_self _ _)
      (objectText_compact _)
  have hduplicate : Spoiled r.toJson (.duplicate "version") _ :=
    @Spoiled.duplicate known (known.map Prod.snd) []
      (.written "version" (Utf8.encode "null".toList)) _ hknown (mixes_self _ _) (by decide)
      (by decide) (.scalar (.word (by decide))) (objectText_compact _)
  have htext (before after : String) : Utf8.encode (before ++ sections ++ after).toList =
      Utf8.encode before.toList ++ (Utf8.encode "\"sections\": ".toList ++
        Utf8.encode (Json.pretty 0 (.array (r.sections.map Section.toJson))) ++
          Utf8.encode after.toList) := by
    rw [String.toList_append, String.toList_append, String.toList_append, Json.text,
      @String.toList_ofList (Json.pretty 0 _), Utf8.encode_append, Utf8.encode_append,
      Utf8.encode_append, List.append_assoc]
  refine ⟨⟨r', hcontent, hwritten, ?_⟩, hrefused ?_ hmissing, hrefused ?_ hduplicate⟩
  · refine (hloaded _ (@blank_singleton (byte ' ') (by decide))
      (@blank_singleton (byte '\n') (by decide)) ?_).1 harranged
    rw [htext, String.toList_ofList, String.toList_ofList, String.toList_ofList]
    decide +kernel
  · rw [htext, String.toList_ofList, String.toList_ofList, String.toList_ofList]
    decide +kernel
  · rw [htext, String.toList_ofList, String.toList_ofList, String.toList_ofList]
    decide +kernel

end HotFrames.Report

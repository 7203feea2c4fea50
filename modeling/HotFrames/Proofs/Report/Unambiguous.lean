import HotFrames.Proofs.FrameTable.Arrangement
import HotFrames.Proofs.Profile.Frames
import HotFrames.Proofs.Report.File

/-!
# What the text of a report says

Titles and frames stand in the text of a report as they are, and nothing marks where they begin and
end.  Still the text says just one thing (`Report.written_eq_iff_shown`), as long as no title and no
frame holds a line feed (`Report.IsLineSafe`): the total and, section by section, the title and the
printed percentage and frame of each entry (`Report.shown`).  Whatever a title looks like, it is the
line behind an empty one that stands where an entry could stand, since the line of an entry begins
with two spaces and is never empty.  In an entry the first percent sign ends the percentage.

Reports on profiles that only consumed sources keep to this, whatever the bytes of the sources are.
-/

namespace HotFrames

namespace Binary64

theorem isDigit_of_mem_zeros {width n : ℕ} {c : Char} (h : c ∈ (Padded.zeros width n).toList) :
    c.isDigit := by
  rw [Padded.zeros, String.toList_ofList, List.mem_append] at h
  obtain hzero | hdigit := h
  · rw [List.eq_of_mem_replicate hzero]
    decide
  · exact Nat.isDigit_of_mem_toDigits (by decide) (by decide) hdigit

/-- The letters of a printed number. -/
theorem isAlphanum_of_mem_withPlaces {places : ℕ} {x : Binary64} {c : Char}
    (h : c ∈ (x.withPlaces places).toList) : c = '-' ∨ c = '.' ∨ c.isAlphanum := by
  cases x with
  | finite negative rank =>
    rw [withPlaces, placesText, String.toList_append] at h
    simp only [String.toList_append, List.mem_append] at h
    have hdigit {d : Char} (hd : d.isDigit) : d.isAlphanum := by simp [Char.isAlphanum, hd]
    obtain hsign | (hwhole | hpoint) | hrest := h
    · cases negative with
      | true => exact .inl (by simpa using hsign)
      | false => simp at hsign
    · rw [Nat.repr, String.toList_ofList] at hwhole
      exact .inr (.inr (hdigit (Nat.isDigit_of_mem_toDigits (by decide) (by decide) hwhole)))
    · exact .inr (.inl (by simpa using hpoint))
    · exact .inr (.inr (hdigit (isDigit_of_mem_zeros hrest)))
  | infinite negative =>
    have hletters : c = '-' ∨ c = 'i' ∨ c = 'n' ∨ c = 'f' := by
      cases negative with
      | true => simpa [withPlaces] using h
      | false => exact .inr (by simpa [withPlaces] using h)
    rcases hletters with rfl | rfl | rfl | rfl <;> decide
  | nan =>
    have hletters : c = 'N' ∨ c = 'a' ∨ c = 'N' := by simpa [withPlaces] using h
    rcases hletters with rfl | rfl | rfl <;> decide

end Binary64

namespace Report

/-! ## Lines -/

/-- What is printed of an entry. -/
def Entry.shown (e : Entry) : String × String := (e.percentage.withPlaces 2, e.frame)

/-- What is printed of a section. -/
def Section.shown (s : Section) : String × List (String × String) :=
  (s.title, s.entries.map Entry.shown)

/-- What is printed of a report. -/
def shown (r : Report) : Samples × List (String × List (String × String)) :=
  (r.total, r.sections.map Section.shown)

/-- No title and no frame holds a line feed. -/
def IsLineSafe (r : Report) : Prop :=
  ∀ s ∈ r.sections, '\n' ∉ s.title.toList ∧ ∀ e ∈ s.entries, '\n' ∉ e.frame.toList

/-- The line of an entry without its line feed. -/
def entryBody (e : String × String) : List Char :=
  ' ' :: ' ' :: ((Padded.right 6 e.1).toList ++ '%' :: ' ' :: ' ' :: e.2.toList)

/-- The lines of a section without their line feeds. -/
def sectionBodies (s : String × List (String × String)) : List (List Char) :=
  [] :: s.1.toList :: s.2.map entryBody

/-- The lines of a report without their line feeds. -/
def bodies (r : Report) : List (List Char) :=
  ("Total samples: ".toList ++ Nat.toDigits 10 r.shown.1.val) :: r.shown.2.flatMap sectionBodies

theorem Entry.toList_line (e : Entry) : e.line.toList = entryBody e.shown ++ ['\n'] := by
  simp [Entry.line, entryBody, Entry.shown]

theorem Section.flatMap_lines (s : Section) :
    s.lines.flatMap String.toList = (sectionBodies s.shown).flatMap (· ++ ['\n']) := by
  have hentries : s.entries.flatMap (fun e => e.line.toList) =
      s.entries.flatMap fun e => entryBody e.shown ++ ['\n'] := by
    simp only [Entry.toList_line]
  simp [Section.lines, sectionBodies, Section.shown, List.flatMap_map, hentries]

theorem toList_text (r : Report) : r.text.toList = r.bodies.flatMap (· ++ ['\n']) := by
  have hsections : (r.sections.flatMap Section.lines).flatMap String.toList =
      (r.sections.flatMap fun s => sectionBodies s.shown).flatMap (· ++ ['\n']) := by
    simp only [List.flatMap_assoc, Section.flatMap_lines]
  simp [text, lines, bodies, shown, Nat.repr, List.flatMap_map, hsections]

/-! ## Lines that can be told apart -/

theorem toList_padded (width : ℕ) (text : String) :
    (Padded.right width text).toList = List.replicate (width - text.length) ' ' ++ text.toList := by
  rw [Padded.right, String.toList_append, String.toList_ofList]

/-- A text that does not begin with a space is not changed by what fills it up. -/
theorem padded_inj {width : ℕ} {text text' : String} (h : ' ' ∉ text.toList)
    (h' : ' ' ∉ text'.toList)
    (heq : (Padded.right width text).toList = (Padded.right width text').toList) : text = text' := by
  rw [toList_padded, toList_padded] at heq
  have hhead {t : String} (ht : ' ' ∉ t.toList) (c : Char) (hc : t.toList.head? = some c) :
      ¬ c = ' ' := fun hspace => ht (hspace ▸ List.mem_of_head? hc)
  obtain ⟨-, htext⟩ := append_inj_of_head? (p := (· = ' ')) (fun _ => List.eq_of_mem_replicate)
    (fun _ => List.eq_of_mem_replicate) (hhead h) (hhead h') heq
  exact String.toList_inj.1 htext

theorem not_mem_padded {width : ℕ} {text : String} {c : Char} (hspace : c ≠ ' ')
    (h : c ∉ text.toList) : c ∉ (Padded.right width text).toList := by
  rw [toList_padded, List.mem_append]
  rintro (hmem | hmem)
  · exact hspace (List.eq_of_mem_replicate hmem)
  · exact h hmem

namespace Entry

theorem not_mem_percentage (e : Entry) {c : Char} (h : ¬ (c = '-' ∨ c = '.' ∨ c.isAlphanum)) :
    c ∉ e.shown.1.toList := fun hmem => h (Binary64.isAlphanum_of_mem_withPlaces hmem)

/-- The line of an entry tells its percentage and its frame, whatever is in the frame. -/
theorem shown_eq_of_body {e e' : Entry} (h : entryBody e.shown = entryBody e'.shown) :
    e.shown = e'.shown := by
  have hpercent (e : Entry) : '%' ∉ (Padded.right 6 e.shown.1).toList :=
    not_mem_padded (by decide) (e.not_mem_percentage (by decide))
  have hspace (e : Entry) : ' ' ∉ e.shown.1.toList := e.not_mem_percentage (by decide)
  simp only [entryBody, List.cons.injEq, true_and] at h
  obtain ⟨hpadded, hbehind⟩ := append_cons_inj (hpercent e) (hpercent e') h
  simp only [List.cons.injEq, true_and] at hbehind
  exact Prod.ext (padded_inj (hspace e) (hspace e') hpadded) (String.toList_inj.1 hbehind)

theorem map_shown_eq_of_bodies {es es' : List Entry}
    (h : (es.map shown).map entryBody = (es'.map shown).map entryBody) :
    es.map shown = es'.map shown := by
  rw [← List.forall₂_eq_eq_eq] at h ⊢
  simp only [List.forall₂_map_left_iff, List.forall₂_map_right_iff] at h ⊢
  exact h.imp fun _ _ => shown_eq_of_body

end Entry

/-- What stands behind the entries of a section, if anything, begins with an empty line. -/
theorem head?_sectionBodies {ss : List Section} {body : List Char}
    (h : ((ss.map Section.shown).flatMap sectionBodies).head? = some body) : body = [] := by
  cases ss with
  | nil => cases h
  | cons s ss => exact (Option.some.inj h).symm

/-- The lines of some sections tell the sections apart.  Titles are not looked at: a title is the line
behind the empty one. -/
theorem map_shown_eq_of_sectionBodies {ss ss' : List Section}
    (h : (ss.map Section.shown).flatMap sectionBodies =
      (ss'.map Section.shown).flatMap sectionBodies) :
    ss.map Section.shown = ss'.map Section.shown := by
  induction ss generalizing ss' with
  | nil =>
    cases ss' with
    | nil => rfl
    | cons s' ss' => simp [sectionBodies] at h
  | cons s ss ih =>
    cases ss' with
    | nil => simp [sectionBodies] at h
    | cons s' ss' =>
      simp only [List.map_cons, List.flatMap_cons, sectionBodies, List.cons_append, List.cons.injEq,
        true_and] at h
      obtain ⟨htitle, hrest⟩ := h
      have hentries (s : Section) : ∀ body ∈ s.shown.2.map entryBody, body ≠ [] := by
        intro body hbody
        obtain ⟨e, -, rfl⟩ := List.mem_map.1 hbody
        exact List.cons_ne_nil _ _
      obtain ⟨hbodies, hsections⟩ := append_inj_of_head? (p := (· ≠ [])) (hentries s) (hentries s')
        (fun _ hhead => not_not_intro (head?_sectionBodies hhead))
        (fun _ hhead => not_not_intro (head?_sectionBodies hhead)) hrest
      have hshown : s.shown = s'.shown :=
        Prod.ext (String.toList_inj.1 htitle) (Entry.map_shown_eq_of_bodies hbodies)
      rw [List.map_cons, List.map_cons, ih hsections, hshown]

/-- The lines of a line-safe report hold no line feed. -/
theorem IsLineSafe.not_mem_bodies {r : Report} (h : r.IsLineSafe) : ∀ body ∈ r.bodies, '\n' ∉ body := by
  intro body hbody
  obtain rfl | hsections := List.mem_cons.1 hbody
  · rw [List.mem_append, not_or]
    refine ⟨by decide, fun hmem => ?_⟩
    exact absurd (Nat.isDigit_of_mem_toDigits (by decide) (by decide) hmem) (by decide)
  obtain ⟨shown, hshown, hmem⟩ := List.mem_flatMap.1 hsections
  obtain ⟨s, hs, rfl⟩ := List.mem_map.1 hshown
  obtain ⟨htitle, hframes⟩ := h s hs
  obtain rfl | hmem := List.mem_cons.1 hmem
  · exact List.not_mem_nil
  obtain rfl | hmem := List.mem_cons.1 hmem
  · exact htitle
  obtain ⟨shown, hshown, rfl⟩ := List.mem_map.1 hmem
  obtain ⟨e, he, rfl⟩ := List.mem_map.1 hshown
  have hpercentage : '\n' ∉ (Padded.right 6 e.shown.1).toList :=
    not_mem_padded (by decide) (e.not_mem_percentage (by decide))
  have hframe : '\n' ∉ e.shown.2.toList := hframes e he
  simp [entryBody, hpercentage, hframe]

/-- Line-safe reports have the same text just if it says the same. -/
theorem textBytes_eq_iff_shown {r r' : Report} (h : r.IsLineSafe) (h' : r'.IsLineSafe) :
    r.textBytes = r'.textBytes ↔ r.shown = r'.shown := by
  simp only [textBytes, toList_text]
  constructor
  · intro heq
    have hchars := congrArg Utf8.decodeLossy heq
    rw [Utf8.decodeLossy_encode, Utf8.decodeLossy_encode] at hchars
    have hbodies := flatMap_append_singleton_inj h.not_mem_bodies h'.not_mem_bodies hchars
    obtain ⟨htotal, hsections⟩ := List.cons.inj hbodies
    have hvalue := congrArg Numeral.value (List.append_cancel_left htotal)
    rw [Numeral.value_toDigits, Numeral.value_toDigits] at hvalue
    exact Prod.ext (Samples.ext hvalue) (map_shown_eq_of_sectionBodies hsections)
  · intro heq
    rw [bodies, bodies, heq]

/-! ## Reports on consumed sources -/

theorem mem_frames_of_mem_ranking {table : FrameTable} {total : Samples} {top : ℕ} {e : Entry}
    (h : e ∈ ranking table total top) : e.frame ∈ table.frames := by
  obtain ⟨slot, hslot, rfl⟩ := List.mem_map.1 h
  exact List.mem_map_of_mem (FrameTable.mem_entries_of_mem_top hslot)

theorem not_mem_title (scope : Profile.Scope) : '\n' ∉ (title scope).toList := by
  rcases scope with _ | _ | _ | _ <;> decide +kernel

/-- A report on a profile that only consumed sources is line-safe. -/
theorem isLineSafe_ofProfile (sources : List Source) (source : String) (top : ℕ)
    (generatedAt : String) :
    (ofProfile (Profile.empty.run (sources.map fun s => .consume s.lines)) source top
      generatedAt).IsLineSafe := by
  intro s hs
  obtain ⟨scope, -, rfl⟩ := List.mem_map.1 hs
  exact ⟨not_mem_title scope, fun e he =>
    Profile.not_mem_frame_of_consumed (mem_frames_of_mem_ranking he)⟩

/-! ## Written texts -/

theorem written_writeText {r : Report} {w : World} (h : (r.writeText World.host w).1 = .ok ()) :
    (r.writeText World.host w).2.out.written = w.out.written ++ r.textBytes := by
  obtain ⟨out, htakes, heq⟩ := r.writeText_eq w
  rw [heq] at h ⊢
  split_ifs at h with hpart
  · exact htakes.written.trans (congrArg (w.out.written ++ ·) hpart)

/-- **A written text says one thing.**  Two line-safe reports are written with the same bytes just if
they have the same total and the same sections in the same order, with the same titles, frames and
printed percentages.  A report on a profile that only consumed sources is line-safe. -/
theorem written_eq_iff_shown :
    (∀ (r r' : Report) (w : World), r.IsLineSafe → r'.IsLineSafe →
      (r.writeText World.host w).1 = .ok () → (r'.writeText World.host w).1 = .ok () →
        ((r.writeText World.host w).2.out.written = (r'.writeText World.host w).2.out.written ↔
          r.shown = r'.shown)) ∧
    ∀ (sources : List Source) (source : String) (top : ℕ) (generatedAt : String),
      (ofProfile (Profile.empty.run (sources.map fun s => .consume s.lines)) source top
        generatedAt).IsLineSafe := by
  refine ⟨fun r r' w h h' hok hok' => ?_, isLineSafe_ofProfile⟩
  rw [written_writeText hok, written_writeText hok', List.append_right_inj]
  exact textBytes_eq_iff_shown h h'

/-- A title that looks like an entry, and an empty title with that entry below it.  The line of the
input ends with a carriage return that belongs to a terminator, and holds another one. -/
theorem written_eq_iff_shown_entry_as_title :
    let entry : Entry :=
      { frame := "f", samples := ⟨1, by decide⟩, percentage := .ofBits 0x4049000000000000 }
    let report (sections : List Section) : Report :=
      { version := "", source := "", total := ⟨2, by decide⟩, generatedAt := "", sections }
    let asTitle := report [{ title := "   50.00%  f", entries := [] }]
    let asEntry := report [{ title := "", entries := [entry] }]
    let w : World := { files := .ofHere [], out := {}, time := "" }
    let source : Source := .ofBytes (Utf8.encode "a\rb;c 3\r\n".toList)
    (asTitle.IsLineSafe ∧ asEntry.IsLineSafe) ∧
      ((asTitle.writeText World.host w).1 = .ok () ∧ (asEntry.writeText World.host w).1 = .ok ()) ∧
      (asTitle.writeText World.host w).2.out.written ≠
        (asEntry.writeText World.host w).2.out.written ∧
      (ofProfile (Profile.empty.run [.consume source.lines]) "" 5 "").IsLineSafe := by
  intro entry report asTitle asEntry w source
  have htitle : asTitle.IsLineSafe := by simp [IsLineSafe, asTitle, report]
  have hentry : asEntry.IsLineSafe := by simp [IsLineSafe, asEntry, report, entry]
  have hok : (asTitle.writeText World.host w).1 = .ok () := by decide +kernel
  have hok' : (asEntry.writeText World.host w).1 = .ok () := by decide +kernel
  refine ⟨⟨htitle, hentry⟩, ⟨hok, hok'⟩, fun heq => ?_, written_eq_iff_shown.2 [source] "" 5 ""⟩
  have hshown := (written_eq_iff_shown.1 asTitle asEntry w htitle hentry hok hok').1 heq
  exact absurd hshown (by simp [shown, Section.shown, asTitle, asEntry, report])

end Report

end HotFrames

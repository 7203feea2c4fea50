import HotFrames.Proofs.FileTree

/-!
# File systems that grow by directories

Making the directories above a place adds directories that were missing and leaves everything else as
it was (`FileTree.GrowsBy`), also when it ends with an error half way.  Each added directory is where
one of the paths to be made leads, which led nowhere before (`FileTree.NewDirectory`).  A directory
that is made is one step of such growth (`FileTree.growsBy_makeDirectory`), and steps go together,
since paths lead where they led while a file system grows (`FileTree.GrowsBy.lookup`,
`FileTree.GrowsBy.trans`).  A file that is put then changes one place more
(`FileTree.GrowsBy.gainsFile`).
-/

namespace HotFrames

namespace FileTree

variable {t t' t'' : FileTree} {paths : List Path} {loc : Location}

/-- Whether a place was free and is now a directory, to which one of some paths leads that led nowhere
before. -/
structure NewDirectory (t t' : FileTree) (paths : List Path) (loc : Location) : Prop where
  free : t.entryAt? loc = none
  directory : t'.entryAt? loc = some .directory
  led : ∃ p ∈ paths, t.pathExists p = false ∧
    ∃ place, t'.lookup p = .ok place ∧ place.location = loc

/-- Whether nothing changed but that missing directories were added to which some paths lead. -/
structure GrowsBy (t t' : FileTree) (paths : List Path) : Prop where
  here : t'.here = t.here
  entry : ∀ loc, t'.entryAt? loc = t.entryAt? loc ∨ t.NewDirectory t' paths loc

theorem pathExists_iff {p : Path} :
    t.pathExists p = true ↔ ∃ place, t.lookup p = .ok place := by
  unfold pathExists
  cases t.lookup p <;> simp [Except.isOk, Except.toBool]

theorem NewDirectory.mono {more : List Path} (h : t.NewDirectory t' paths loc)
    (hsub : paths ⊆ more) : t.NewDirectory t' more loc where
  free := h.free
  directory := h.directory
  led := by
    obtain ⟨p, hp, hled⟩ := h.led
    exact ⟨p, hsub hp, hled⟩

/-- A new directory stays one in a file system that keeps it. -/
theorem NewDirectory.of_keeps (h : t.NewDirectory t' paths loc) (hkeeps : t'.Keeps t'')
    (hsound : t'.IsSound) : t.NewDirectory t'' paths loc where
  free := h.free
  directory := hkeeps.directory loc h.directory
  led := by
    obtain ⟨p, hp, hmissing, place, hlookup, hlocation⟩ := h.led
    have hentry : t''.entryAt? place.location = t'.entryAt? place.location := by
      rw [hlocation, hkeeps.directory loc h.directory, h.directory]
    obtain ⟨place', hlookup', hlocation'⟩ := hkeeps.lookup hsound hlookup hentry
    exact ⟨p, hp, hmissing, place', hlookup', hlocation'.trans hlocation⟩

namespace GrowsBy

theorem refl (t : FileTree) (paths : List Path) : t.GrowsBy t paths := ⟨rfl, fun _ => .inl rfl⟩

theorem mono {more : List Path} (h : t.GrowsBy t' paths) (hsub : paths ⊆ more) :
    t.GrowsBy t' more := ⟨h.here, fun loc => (h.entry loc).imp_right fun hnew => hnew.mono hsub⟩

/-- What is there stays. -/
theorem entryAt?_of_some (h : t.GrowsBy t' paths) {e : Entry} (he : t.entryAt? loc = some e) :
    t'.entryAt? loc = some e := by
  rcases h.entry loc with hsame | hnew
  · rw [hsame, he]
  · have hfree := hnew.free
    rw [he] at hfree
    cases hfree

theorem keeps (h : t.GrowsBy t' paths) : t.Keeps t' := ⟨h.here, fun _ => h.entryAt?_of_some⟩

/-- A path leads where it led. -/
theorem lookup (h : t.GrowsBy t' paths) (hsound : t.IsSound) {p : Path} {place : Place t.root}
    (hlookup : t.lookup p = .ok place) :
    ∃ place', t'.lookup p = .ok place' ∧ place'.location = place.location := by
  refine h.keeps.lookup hsound hlookup ?_
  rw [entryAt?_location, h.entryAt?_of_some (entryAt?_location place)]

theorem pathExists_eq_false (h : t.GrowsBy t' paths) (hsound : t.IsSound) {p : Path}
    (hmissing : t'.pathExists p = false) : t.pathExists p = false := by
  rw [← Bool.not_eq_true] at hmissing ⊢
  intro hexists
  obtain ⟨place, hlookup⟩ := pathExists_iff.1 hexists
  obtain ⟨place', hlookup', -⟩ := h.lookup hsound hlookup
  exact hmissing (pathExists_iff.2 ⟨place', hlookup'⟩)

theorem trans (h : t.GrowsBy t' paths) (h' : t'.GrowsBy t'' paths) (hsound : t.IsSound)
    (hsound' : t'.IsSound) : t.GrowsBy t'' paths where
  here := h'.here.trans h.here
  entry loc := by
    rcases h'.entry loc with hsame | hnew
    · rcases h.entry loc with hsame' | hnew'
      · exact .inl (hsame.trans hsame')
      · exact .inr (hnew'.of_keeps h'.keeps hsound')
    · -- A place that is free after the first growth was free before it.
      have hfree : t.entryAt? loc = none := by
        cases he : t.entryAt? loc with
        | none => rfl
        | some e =>
          have hheld := h.entryAt?_of_some he
          rw [hnew.free] at hheld
          cases hheld
      obtain ⟨p, hp, hmissing, hled⟩ := hnew.led
      exact .inr ⟨hfree, hnew.directory, p, hp, h.pathExists_eq_false hsound hmissing, hled⟩

end GrowsBy

/-! ## Putting a file -/

/-- Whether a path leads to a file with a content, and nothing changed elsewhere but that missing
directories were added to which some paths lead. -/
structure GainsFile (t t' : FileTree) (p : Path) (content : List UInt8) (paths : List Path) :
    Prop where
  here : t'.here = t.here
  file : ∃ place, t'.lookup p = .ok place ∧ place.node = .file content ∧
    ∀ loc ≠ place.location, t'.entryAt? loc = t.entryAt? loc ∨ t.NewDirectory t' paths loc

/-- A file that is put changes one place of the file system that has grown. -/
theorem GrowsBy.gainsFile (h : t.GrowsBy t' paths) (hsound : t'.IsSound) {p : Path}
    {content : List UInt8} (hwrite : t'.writeFile p content = .ok t'') :
    t.GainsFile t'' p content paths := by
  obtain ⟨dir, name, htakes⟩ := takesFile_of_writeFile hwrite
  rw [htakes.writeFile content] at hwrite
  cases hwrite
  have hdir := hsound.isDirectory_holder htakes.holder
  have hslash : p.endsInSlash = true → Entry.file content = .directory := fun hends =>
    absurd (htakes.no_slash.symm.trans hends) Bool.false_ne_true
  obtain ⟨place, hlookup, hlocation, hentry⟩ :=
    lookup_put htakes.free hsound htakes.toNames (.file content) hslash
  refine ⟨h.here, place, hlookup, Node.eq_file_of_entry hentry, fun loc hloc => ?_⟩
  rw [hlocation] at hloc
  rw [entryAt?_put_of_ne htakes.free hdir (.file content) hloc]
  refine (h.entry loc).imp_right fun hnew => ?_
  exact hnew.of_keeps (keeps_put htakes.free (.file content)) hsound

/-! ## Making directories -/

/-- A path leads nowhere if nothing is under the name that it leads to. -/
theorem Names.pathExists_eq_false {dir : Place t.root} {name : String} {p : Path}
    (h : Names dir name p) (hchild : dir.child? name = none) : t.pathExists p = false := by
  rw [← Bool.not_eq_true]
  intro hexists
  obtain ⟨place, hlookup⟩ := pathExists_iff.1 hexists
  rcases lookup_eq_ok hlookup with hholder | ⟨dir', name', hholder, hfollow, -⟩
  · rw [h.holder] at hholder
    cases hholder
  · rw [h.holder] at hholder
    cases hholder
    rcases follow_cases hfollow with ⟨hdot, -⟩ | ⟨hdots, -⟩ | ⟨-, -, -, hplace⟩
    · exact h.not_dots.1 hdot
    · exact h.not_dots.2 hdots
    · rw [hchild] at hplace
      cases hplace

/-- A directory that is made is all that changes. -/
theorem growsBy_makeDirectory (hsound : t.IsSound) {p : Path} (h : t.makeDirectory p = .ok t')
    (hp : p ∈ paths) : t.GrowsBy t' paths := by
  obtain ⟨dir, name, hnames, hchild, rfl⟩ := makeDirectory_eq_ok h
  have hdir := hsound.isDirectory_holder hnames.holder
  have hfree := free_of_child?_eq_none hchild
  refine ⟨rfl, fun loc => ?_⟩
  by_cases hloc : loc = dir.location ++ [name]
  · obtain ⟨place, hlookup, hlocation, -⟩ :=
      lookup_put hfree hsound hnames .directory fun _ => rfl
    refine .inr ⟨?_, ?_, p, hp, hnames.pathExists_eq_false hchild, place, hlookup,
      hlocation.trans hloc.symm⟩
    · cases hentry : t.entryAt? loc with
      | none => rfl
      | some e =>
        rw [hloc] at hentry
        obtain ⟨there, hthere, -⟩ := exists_child?_of_entryAt? hentry
        rw [hchild] at hthere
        cases hthere
    · rw [hloc]
      exact entryAt?_put_self t dir name .directory hdir
  · exact .inl (entryAt?_put_of_ne hfree hdir .directory hloc)

theorem growsBy_makeLineage (hsound : t.IsSound) (paths : List Path) :
    t.GrowsBy (t.makeLineage paths).2 paths := by
  induction paths generalizing t with
  | nil => exact .refl t []
  | cons p above ih =>
    rw [FileTree.makeLineage]
    split
    · exact .refl t _
    · split
      · next hmade => exact growsBy_makeDirectory hsound hmade List.mem_cons_self
      · have habove := (ih hsound).mono (List.subset_cons_self p above)
        have hsound' := hsound.makeLineage above
        split
        · next hresult =>
          rw [hresult] at habove
          exact habove
        · next hresult =>
          rw [hresult] at habove hsound'
          split
          · next hmade =>
            exact habove.trans (growsBy_makeDirectory hsound' hmade List.mem_cons_self) hsound
              hsound'
          · exact habove
      · exact .refl t _

/-- **Making directories adds missing ones at the path and its lexical ancestors**, and changes nothing
else, whether or not it ends with an error. -/
theorem growsBy_makeDirectories (hsound : t.IsSound) (p : Path) :
    t.GrowsBy (t.makeDirectories p).2 (p :: p.ancestors) := by
  unfold FileTree.makeDirectories
  split
  · exact .refl t _
  · split
    · exact .refl t _
    · exact growsBy_makeLineage hsound (p :: p.ancestors)

end FileTree

end HotFrames

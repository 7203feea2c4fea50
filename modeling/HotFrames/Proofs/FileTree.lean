import HotFrames.FileTree
import Mathlib

/-!
# Files are found where they were put

In a file system whose root is a directory and whose current directory is no file
(`FileTree.IsSound`), a look-up of a path under which a file was put leads to that file
(`FileTree.lookup_of_writeFile`).  Putting a file or making a directory keeps all directories where
they are, so that the steps of the look-up are those of the change (`FileTree.Keeps`).  What is put
under a name is all that changes (`FileTree.entryAt?_put_of_ne`), and each path to that name leads
there (`FileTree.lookup_put`).
-/

namespace HotFrames

namespace Node

theorem at?_put_self {n : Node} {dir : Location} (name : String) (e : Entry)
    (h : n.entryAt? dir = some .directory) :
    (n.put dir name e).at? (dir ++ [name]) = some e.node := by
  induction dir generalizing n with
  | nil =>
    cases n with
    | file => cases h
    | directory entries =>
      rw [put, List.nil_append, at?, child?, lookup_setChild_self]
      rfl
  | cons d dir ih =>
    cases n with
    | file => cases h
    | directory entries =>
      rw [entryAt?_cons, child?] at h
      rw [put]
      cases hc : entries.lookup d with
      | none =>
        rw [hc] at h
        cases h
      | some child =>
        rw [hc] at h
        simp only [List.cons_append]
        rw [at?, child?, lookup_setChild_self]
        exact ih h

theorem isDirectory_iff_entry {n : Node} : n.isDirectory = true ↔ n.entry = .directory := by
  cases n <;> simp [isDirectory, entry]

theorem eq_file_of_entry {n : Node} {content : List UInt8} (h : n.entry = .file content) :
    n = .file content := by
  cases n with
  | file => cases h; rfl
  | directory => cases h

end Node

namespace Place

variable {root : Node} {p q : Place root} {name : String}

theorem location_up (p : Place root) : p.up.location = p.location.dropLast := by
  obtain ⟨way, h⟩ := p
  cases way with
  | nil => rfl
  | cons step way => simp [up, location]

theorem of_child? (h : p.child? name = some q) :
    p.node.child? name = some q.node ∧ q.location = p.location ++ [name] := by
  unfold child? at h
  split at h
  · next node hnode =>
    cases h
    exact ⟨hnode, by simp [location]⟩
  · cases h

theorem exists_child? {node : Node} (h : p.node.child? name = some node) :
    ∃ q, p.child? name = some q := by
  unfold child?
  split
  · exact ⟨_, rfl⟩
  · next hnone =>
    rw [hnone] at h
    cases h

/-- Names that lead down from a place lead to a place. -/
theorem exists_foldlM_child? {names : Location} {node : Node} (h : p.node.at? names = some node) :
    ∃ q : Place root, names.foldlM child? p = some q ∧ q.location = p.location ++ names := by
  induction names generalizing p with
  | nil => exact ⟨p, rfl, (List.append_nil _).symm⟩
  | cons name names ih =>
    rw [Node.at?] at h
    cases hchild : p.node.child? name with
    | none =>
      rw [hchild] at h
      cases h
    | some child =>
      rw [hchild] at h
      obtain ⟨q, hq⟩ := exists_child? hchild
      obtain ⟨hnode, hlocation⟩ := of_child? hq
      rw [hnode] at hchild
      cases hchild
      obtain ⟨last, hlast, hend⟩ := ih h
      refine ⟨last, ?_, ?_⟩
      · rw [List.foldlM_cons, hq]
        exact hlast
      · rw [hend, hlocation, List.append_assoc]
        rfl

theorem location_foldlM_child? {names : Location} (h : names.foldlM child? p = some q) :
    q.location = p.location ++ names := by
  induction names generalizing p with
  | nil =>
    cases h
    exact (List.append_nil _).symm
  | cons name names ih =>
    rw [List.foldlM_cons] at h
    cases hchild : p.child? name with
    | none =>
      rw [hchild] at h
      cases h
    | some child =>
      rw [hchild] at h
      rw [ih h, (of_child? hchild).2, List.append_assoc]
      rfl

end Place

namespace FileTree

variable {t t' : FileTree} {p : Path}

/-- A file system whose root is a directory and whose current directory is no file. -/
structure IsSound (t : FileTree) : Prop where
  root : t.root.isDirectory = true
  here : ∀ content, t.entryAt? t.here ≠ some (.file content)

theorem entryAt?_ofHere (here : Location) : (ofHere here).entryAt? here = some .directory := by
  unfold ofHere entryAt?
  induction here with
  | nil => rfl
  | cons name here ih =>
    rw [List.foldr_cons]
    simpa [Node.entryAt?, Node.at?, Node.child?] using ih

/-- A file system with nothing but its current directory is sound. -/
theorem isSound_ofHere (here : Location) : (ofHere here).IsSound where
  root := by
    unfold ofHere
    cases here <;> rfl
  here content := by
    show (ofHere here).entryAt? here ≠ _
    rw [entryAt?_ofHere]
    exact nofun

theorem entryAt?_location (place : Place t.root) :
    t.entryAt? place.location = some place.node.entry := by
  rw [entryAt?, Node.entryAt?, place.at?_location]
  rfl

theorem isDirectory_iff {place : Place t.root} :
    place.node.isDirectory = true ↔ t.entryAt? place.location = some .directory := by
  rw [entryAt?_location, Node.isDirectory_iff_entry, Option.some.injEq]

/-! ## Look-up -/

/-- The ways in which a component leads from a directory to a place. -/
theorem follow_cases {dir place : Place t.root} {name : String}
    (h : t.follow dir name = .ok place) :
    (name = "." ∧ place = dir) ∨ (name = ".." ∧ place = dir.up) ∨
      (name ≠ "." ∧ name ≠ ".." ∧ ¬ maxName < name.utf8ByteSize ∧
        dir.child? name = some place) := by
  unfold follow child? at h
  by_cases hdot : name = "."
  · rw [if_pos hdot] at h
    cases h
    exact .inl ⟨hdot, rfl⟩
  rw [if_neg hdot] at h
  by_cases hdots : name = ".."
  · rw [if_pos hdots] at h
    cases h
    exact .inr (.inl ⟨hdots, rfl⟩)
  rw [if_neg hdots] at h
  by_cases hlong : maxName < name.utf8ByteSize
  · rw [if_pos hlong] at h
    cases h
  rw [if_neg hlong] at h
  cases hchild : dir.child? name with
  | none =>
    rw [hchild] at h
    cases h
  | some child =>
    rw [hchild] at h
    cases h
    exact .inr (.inr ⟨hdot, hdots, hlong, rfl⟩)

theorem follow_of_child? {dir place : Place t.root} {name : String} (hdot : name ≠ ".")
    (hdots : name ≠ "..") (hlong : ¬ maxName < name.utf8ByteSize)
    (h : dir.child? name = some place) : t.follow dir name = .ok place := by
  rw [follow, if_neg hdot, if_neg hdots, child?, if_neg hlong, h]

theorem exists_child?_of_entryAt? {dir : Place t.root} {name : String} {e : Entry}
    (h : t.entryAt? (dir.location ++ [name]) = some e) :
    ∃ place, dir.child? name = some place ∧ place.node.entry = e := by
  rw [entryAt?, Node.entryAt?, Node.at?_append, dir.at?_location, Option.bind_some, Node.at?] at h
  cases hchild : dir.node.child? name with
  | none =>
    rw [hchild] at h
    cases h
  | some child =>
    rw [hchild] at h
    obtain ⟨place, hplace⟩ := Place.exists_child? hchild
    have hnode := (Place.of_child? hplace).1
    rw [hchild] at hnode
    cases hnode
    exact ⟨place, hplace, Option.some.inj h⟩

/-- A component leads to the same place in another file system if the same is there. -/
theorem follow_of_entry {dir place : Place t.root} {dir' : Place t'.root} {name : String}
    (hdir : dir'.location = dir.location)
    (hentry : t'.entryAt? place.location = t.entryAt? place.location)
    (hfollow : t.follow dir name = .ok place) :
    ∃ place', t'.follow dir' name = .ok place' ∧ place'.location = place.location := by
  rcases follow_cases hfollow with ⟨rfl, rfl⟩ | ⟨rfl, rfl⟩ | ⟨hdot, hdots, hlong, hchild⟩
  · exact ⟨dir', by rw [FileTree.follow, if_pos rfl], hdir⟩
  · refine ⟨dir'.up, by rw [FileTree.follow, if_neg (by decide), if_pos rfl], ?_⟩
    rw [Place.location_up, Place.location_up, hdir]
  · have hlocation := (Place.of_child? hchild).2
    rw [entryAt?_location, hlocation, ← hdir] at hentry
    obtain ⟨place', hplace', -⟩ := exists_child?_of_entryAt? hentry
    refine ⟨place', follow_of_child? hdot hdots hlong hplace', ?_⟩
    rw [(Place.of_child? hplace').2, hlocation, hdir]

theorem follow_of_enter {dir place : Place t.root} {name : String}
    (h : t.enter dir name = .ok place) :
    t.follow dir name = .ok place ∧ place.node.isDirectory = true := by
  unfold enter at h
  cases hfollow : t.follow dir name with
  | error e =>
    rw [hfollow] at h
    cases h
  | ok found =>
    rw [hfollow] at h
    simp only at h
    split at h
    · next hdir =>
      cases h
      exact ⟨rfl, hdir⟩
    · cases h

theorem isDirectory_of_foldlM_enter {names : List String} {dir place : Place t.root}
    (hdir : dir.node.isDirectory = true) (h : names.foldlM t.enter dir = .ok place) :
    place.node.isDirectory = true := by
  induction names generalizing dir with
  | nil =>
    cases h
    exact hdir
  | cons name names ih =>
    rw [List.foldlM_cons] at h
    cases henter : t.enter dir name with
    | error e =>
      rw [henter] at h
      cases h
    | ok next =>
      rw [henter] at h
      exact ih (follow_of_enter henter).2 h

theorem IsSound.isDirectory_origin (hsound : t.IsSound) {place : Place t.root}
    (h : t.origin p = .ok place) : place.node.isDirectory = true := by
  unfold origin at h
  split at h
  · cases h
    exact hsound.root
  · cases hfold : t.here.foldlM Place.child? (.top : Place t.root) with
    | none =>
      rw [hfold] at h
      cases h
    | some found =>
      rw [hfold] at h
      cases h
      have hlocation : place.location = t.here := Place.location_foldlM_child? hfold
      have hentry := entryAt?_location place
      rw [hlocation] at hentry
      cases hnode : place.node with
      | directory => rfl
      | file content =>
        rw [hnode] at hentry
        exact absurd hentry (hsound.here content)

/-- The parts of finding the holder of a path. -/
theorem holder_eq_ok {dir : Place t.root} {last : Option String}
    (h : t.holder p = .ok (dir, last)) :
    checkPath p = .ok () ∧ last = p.components.getLast? ∧
      ∃ start, t.origin p = .ok start ∧ p.components.dropLast.foldlM t.enter start = .ok dir := by
  unfold holder at h
  cases hcheck : checkPath p with
  | error e =>
    rw [hcheck] at h
    cases h
  | ok _ =>
    rw [hcheck] at h
    cases horigin : t.origin p with
    | error e =>
      rw [horigin] at h
      cases h
    | ok start =>
      rw [horigin] at h
      cases hfold : p.components.dropLast.foldlM t.enter start with
      | error e =>
        simp only [bind, Except.bind, hfold] at h
        cases h
      | ok found =>
        simp only [bind, Except.bind, hfold] at h
        cases h
        exact ⟨rfl, rfl, start, rfl, hfold⟩

/-- The parts of a look-up. -/
theorem lookup_eq_ok {place : Place t.root} (h : t.lookup p = .ok place) :
    t.holder p = .ok (place, none) ∨
      ∃ dir name, t.holder p = .ok (dir, some name) ∧ t.follow dir name = .ok place ∧
        (p.endsInSlash && !place.node.isDirectory) = false := by
  unfold lookup at h
  cases hholder : t.holder p with
  | error e =>
    rw [hholder] at h
    cases h
  | ok found =>
    obtain ⟨dir, last⟩ := found
    rw [hholder] at h
    cases last with
    | none =>
      cases h
      exact .inl rfl
    | some name =>
      simp only [bind, Except.bind] at h
      cases hfollow : t.follow dir name with
      | error e =>
        rw [hfollow] at h
        cases h
      | ok found =>
        rw [hfollow] at h
        simp only at h
        split at h
        · cases h
        · next hslash =>
          cases h
          exact .inr ⟨dir, name, rfl, hfollow, Bool.not_eq_true _ ▸ hslash⟩

theorem lookup_of_follow {dir place : Place t.root} {name : String}
    (hholder : t.holder p = .ok (dir, some name)) (hfollow : t.follow dir name = .ok place)
    (hslash : (p.endsInSlash && !place.node.isDirectory) = false) : t.lookup p = .ok place := by
  unfold lookup
  simp only [bind, Except.bind, hholder, hfollow, hslash]
  rfl

theorem IsSound.isDirectory_holder (hsound : t.IsSound) {dir : Place t.root}
    {last : Option String} (h : t.holder p = .ok (dir, last)) : dir.node.isDirectory = true := by
  obtain ⟨-, -, start, horigin, hfold⟩ := holder_eq_ok h
  exact isDirectory_of_foldlM_enter (hsound.isDirectory_origin horigin) hfold

/-- Whether a path leads to a name in a directory, be there something under it or not. -/
structure Names (dir : Place t.root) (name : String) (p : Path) : Prop where
  holder : t.holder p = .ok (dir, some name)
  not_dots : name ≠ "." ∧ name ≠ ".."
  not_long : ¬ maxName < name.utf8ByteSize

/-! ## Changes that keep directories -/

/-- The directories of a file system are where they were, the current one among them. -/
structure Keeps (t t' : FileTree) : Prop where
  here : t'.here = t.here
  directory : ∀ loc, t.entryAt? loc = some .directory → t'.entryAt? loc = some .directory

namespace Keeps

variable (h : t.Keeps t')
include h

theorem isDirectory {place : Place t.root} {place' : Place t'.root}
    (hlocation : place'.location = place.location) (hdir : place.node.isDirectory = true) :
    place'.node.isDirectory = true := by
  rw [isDirectory_iff, hlocation]
  exact h.directory _ (isDirectory_iff.1 hdir)

theorem follow {dir place : Place t.root} {dir' : Place t'.root} {name : String}
    (hdir : dir'.location = dir.location) (hplace : place.node.isDirectory = true)
    (hfollow : t.follow dir name = .ok place) :
    ∃ place', t'.follow dir' name = .ok place' ∧ place'.location = place.location := by
  have hentry := isDirectory_iff.1 hplace
  exact follow_of_entry hdir (by rw [hentry, h.directory _ hentry]) hfollow

theorem enter {dir place : Place t.root} {dir' : Place t'.root} {name : String}
    (hdir : dir'.location = dir.location) (henter : t.enter dir name = .ok place) :
    ∃ place', t'.enter dir' name = .ok place' ∧ place'.location = place.location := by
  obtain ⟨hfollow, hplace⟩ := follow_of_enter henter
  obtain ⟨place', hfollow', hlocation⟩ := h.follow hdir hplace hfollow
  refine ⟨place', ?_, hlocation⟩
  rw [FileTree.enter, hfollow']
  simp only [h.isDirectory hlocation hplace, if_true]

theorem foldlM_enter {names : List String} {dir place : Place t.root} {dir' : Place t'.root}
    (hdir : dir'.location = dir.location) (hfold : names.foldlM t.enter dir = .ok place) :
    ∃ place', names.foldlM t'.enter dir' = .ok place' ∧ place'.location = place.location := by
  induction names generalizing dir dir' with
  | nil =>
    cases hfold
    exact ⟨dir', rfl, hdir⟩
  | cons name names ih =>
    rw [List.foldlM_cons] at hfold
    cases henter : t.enter dir name with
    | error e =>
      rw [henter] at hfold
      cases hfold
    | ok next =>
      rw [henter] at hfold
      obtain ⟨next', henter', hnext⟩ := h.enter hdir henter
      obtain ⟨place', hfold', hlocation⟩ := ih hnext hfold
      refine ⟨place', ?_, hlocation⟩
      rw [List.foldlM_cons, henter']
      exact hfold'

theorem origin (hsound : t.IsSound) {start : Place t.root} (horigin : t.origin p = .ok start) :
    ∃ start', t'.origin p = .ok start' ∧ start'.location = start.location := by
  have hstart := hsound.isDirectory_origin horigin
  unfold FileTree.origin at horigin ⊢
  by_cases habsolute : p.isAbsolute = true
  · rw [if_pos habsolute] at horigin ⊢
    cases horigin
    exact ⟨.top, rfl, rfl⟩
  · rw [if_neg habsolute] at horigin ⊢
    cases hfold : t.here.foldlM Place.child? (.top : Place t.root) with
    | none =>
      rw [hfold] at horigin
      cases horigin
    | some place =>
      rw [hfold] at horigin
      cases horigin
      have hlocation : start.location = t.here := Place.location_foldlM_child? hfold
      have hentry := h.directory _ (isDirectory_iff.1 hstart)
      rw [hlocation] at hentry
      obtain ⟨node, hnode, -⟩ := Option.map_eq_some_iff.1 hentry
      obtain ⟨start', hfold', hlocation'⟩ := Place.exists_foldlM_child? (p := .top) hnode
      rw [h.here, hfold']
      exact ⟨start', rfl, hlocation'.trans hlocation.symm⟩

/-- **The holder of a path is found where it was.** -/
theorem holder (hsound : t.IsSound) {dir : Place t.root} {last : Option String}
    (hholder : t.holder p = .ok (dir, last)) :
    ∃ dir', t'.holder p = .ok (dir', last) ∧ dir'.location = dir.location := by
  obtain ⟨hcheck, rfl, start, horigin, hfold⟩ := holder_eq_ok hholder
  obtain ⟨start', horigin', hstart⟩ := h.origin hsound horigin
  obtain ⟨dir', hfold', hdir⟩ := h.foldlM_enter hstart hfold
  refine ⟨dir', ?_, hdir⟩
  unfold FileTree.holder
  simp only [bind, Except.bind, hcheck, horigin', hfold']

/-- A path leads where it led, if the same is there. -/
theorem lookup (hsound : t.IsSound) {place : Place t.root} (hlookup : t.lookup p = .ok place)
    (hentry : t'.entryAt? place.location = t.entryAt? place.location) :
    ∃ place', t'.lookup p = .ok place' ∧ place'.location = place.location := by
  rcases lookup_eq_ok hlookup with hholder | ⟨dir, name, hholder, hfollow, hslash⟩
  · obtain ⟨place', hholder', hlocation⟩ := h.holder hsound hholder
    refine ⟨place', ?_, hlocation⟩
    unfold FileTree.lookup
    simp only [bind, Except.bind, hholder']
  · obtain ⟨dir', hholder', hdir⟩ := h.holder hsound hholder
    obtain ⟨place', hfollow', hlocation⟩ := follow_of_entry hdir hentry hfollow
    refine ⟨place', lookup_of_follow hholder' hfollow' ?_, hlocation⟩
    have hkind : place'.node.isDirectory = place.node.isDirectory := by
      rw [Bool.eq_iff_iff, isDirectory_iff, isDirectory_iff, hlocation, hentry]
    rw [hkind, hslash]

end Keeps

section Put

variable {dir : Place t.root} {name : String}
  (hfree : ∀ place, dir.child? name = some place → place.node.isDirectory = false)
include hfree

/-- Where there is no directory yet, putting something keeps all directories. -/
theorem keeps_put (e : Entry) : t.Keeps (t.put dir name e) where
  here := rfl
  directory loc hloc := by
    by_cases hbelow : dir.location ++ [name] <+: loc
    · obtain ⟨more, rfl⟩ := hbelow
      obtain ⟨node, hnode, hentry⟩ := Option.map_eq_some_iff.1 hloc
      rw [Node.at?_append, Option.bind_eq_some_iff] at hnode
      obtain ⟨there, hthere, hmore⟩ := hnode
      have hchild : t.entryAt? (dir.location ++ [name]) = some there.entry := by
        rw [entryAt?, Node.entryAt?, hthere]
        rfl
      obtain ⟨place, hplace, hsame⟩ := exists_child?_of_entryAt? hchild
      have hfile := hfree place hplace
      -- Nothing is below a file.
      cases there with
      | directory entries =>
        rw [Node.isDirectory_iff_entry.2 hsame] at hfile
        cases hfile
      | file content =>
        cases more with
        | nil =>
          cases hmore
          cases hentry
        | cons => cases hmore
    · rw [entryAt?_put_of_not_below t dir e hbelow]
      exact hloc

/-- Where there is no directory yet, putting something changes one place. -/
theorem entryAt?_put_of_ne (hdir : dir.node.isDirectory = true) (e : Entry) {loc : Location}
    (hne : loc ≠ dir.location ++ [name]) : (t.put dir name e).entryAt? loc = t.entryAt? loc := by
  by_cases hbelow : dir.location ++ [name] <+: loc
  · -- Nothing is below what is put, and nothing was below a file or a free place.
    obtain ⟨more, rfl⟩ := hbelow
    obtain ⟨next, more, rfl⟩ := List.exists_cons_of_ne_nil fun hnil : more = [] =>
      hne (by rw [hnil, List.append_nil])
    have hput := Node.at?_put_self name e (isDirectory_iff.1 hdir)
    have hafter : (t.put dir name e).entryAt? (dir.location ++ [name] ++ next :: more) = none := by
      rw [entryAt?, Node.entryAt?, FileTree.put, Node.at?_append, hput]
      cases e <;> rfl
    have hbefore : t.entryAt? (dir.location ++ [name] ++ next :: more) = none := by
      rw [List.append_assoc, List.singleton_append, entryAt?, Node.entryAt?, Node.at?_append,
        dir.at?_location, Option.bind_some, Node.at?]
      cases hchild : dir.node.child? name with
      | none => rfl
      | some child =>
        obtain ⟨place, hplace⟩ := Place.exists_child? hchild
        have hfile := hfree place hplace
        have hnode := (Place.of_child? hplace).1
        rw [hchild, Option.some.injEq] at hnode
        subst hnode
        cases hnode : place.node with
        | file content => rfl
        | directory entries =>
          rw [hnode] at hfile
          cases hfile
    rw [hafter, hbefore]
  · exact entryAt?_put_of_not_below t dir e hbelow

/-- A path under which something was put leads to that. -/
theorem lookup_put (hsound : t.IsSound) (hnames : Names dir name p) (e : Entry)
    (hslash : p.endsInSlash = true → e = .directory) :
    ∃ place, (t.put dir name e).lookup p = .ok place ∧ place.location = dir.location ++ [name] ∧
      place.node.entry = e := by
  have hdir := hsound.isDirectory_holder hnames.holder
  obtain ⟨dir', hholder, hlocation⟩ := (keeps_put hfree e).holder hsound hnames.holder
  have hentry := entryAt?_put_self t dir name e hdir
  rw [← hlocation] at hentry
  obtain ⟨place, hchild, hplace⟩ := exists_child?_of_entryAt? hentry
  have hfollow := follow_of_child? hnames.not_dots.1 hnames.not_dots.2 hnames.not_long hchild
  refine ⟨place, lookup_of_follow hholder hfollow ?_, ?_, hplace⟩
  · cases hends : p.endsInSlash with
    | false => rfl
    | true =>
      rw [Node.isDirectory_iff_entry.2 (hplace.trans (hslash hends))]
      rfl
  · rw [(Place.of_child? hchild).2, hlocation]

theorem IsSound.put_directory (hsound : t.IsSound) (hdir : dir.node.isDirectory = true) :
    (t.put dir name .directory).IsSound where
  root := by
    have hroot : t.entryAt? [] = some .directory := by
      rw [entryAt?, Node.entryAt?_nil, Node.entry_of_isDirectory hsound.root]
    have hkept := (keeps_put hfree .directory).directory [] hroot
    rw [entryAt?, Node.entryAt?_nil, Option.some.injEq] at hkept
    exact Node.isDirectory_iff_entry.2 hkept
  here content hcontent := by
    have hhere : (t.put dir name .directory).here = t.here := rfl
    rw [hhere] at hcontent
    by_cases hbelow : dir.location ++ [name] <+: t.here
    · obtain ⟨more, hmore⟩ := hbelow
      have hput := Node.at?_put_self name .directory (isDirectory_iff.1 hdir)
      rw [← hmore, entryAt?, Node.entryAt?, FileTree.put, Node.at?_append, hput] at hcontent
      cases more <;> cases hcontent
    · rw [entryAt?_put_of_not_below t dir .directory hbelow] at hcontent
      exact hsound.here content hcontent

end Put

/-! ## Making directories -/

/-- A directory is made under a name under which nothing is. -/
theorem makeDirectory_eq_ok (h : t.makeDirectory p = .ok t') :
    ∃ (dir : Place t.root) (name : String), Names dir name p ∧ dir.child? name = none ∧
      t' = t.put dir name .directory := by
  unfold FileTree.makeDirectory at h
  cases hholder : t.holder p with
  | error e =>
    rw [hholder] at h
    cases h
  | ok found =>
    obtain ⟨dir, last⟩ := found
    rw [hholder] at h
    cases last with
    | none => cases h
    | some name =>
      simp only [bind, Except.bind] at h
      by_cases hdots : name = "." ∨ name = ".."
      · rw [if_pos hdots] at h
        cases h
      · rw [if_neg hdots] at h
        unfold child? at h
        by_cases hlong : maxName < name.utf8ByteSize
        · rw [if_pos hlong] at h
          cases h
        · rw [if_neg hlong] at h
          cases hchild : dir.child? name with
          | some place =>
            rw [hchild] at h
            cases h
          | none =>
            rw [hchild] at h
            cases h
            exact ⟨dir, name, ⟨hholder, not_or.1 hdots, hlong⟩, hchild, rfl⟩

/-- Nothing is in the way under a name under which nothing is. -/
theorem free_of_child?_eq_none {dir : Place t.root} {name : String} (h : dir.child? name = none) :
    ∀ place, dir.child? name = some place → place.node.isDirectory = false := by
  intro place hplace
  rw [h] at hplace
  cases hplace

theorem IsSound.makeDirectory (hsound : t.IsSound) (h : t.makeDirectory p = .ok t') :
    t'.IsSound := by
  obtain ⟨dir, name, hnames, hchild, rfl⟩ := makeDirectory_eq_ok h
  exact hsound.put_directory (free_of_child?_eq_none hchild) (hsound.isDirectory_holder hnames.holder)

theorem IsSound.makeLineage (hsound : t.IsSound) (paths : List Path) :
    (t.makeLineage paths).2.IsSound := by
  induction paths generalizing t with
  | nil => exact hsound
  | cons p above ih =>
    rw [FileTree.makeLineage]
    split
    · exact hsound
    · split
      · next hmade => exact hsound.makeDirectory hmade
      · have habove := ih hsound
        split
        · next hresult =>
          rw [hresult] at habove
          exact habove
        · next hresult =>
          rw [hresult] at habove
          split
          · next hmade => exact habove.makeDirectory hmade
          · exact habove
      · exact hsound

/-- Making directories keeps a file system sound. -/
theorem IsSound.makeDirectories (hsound : t.IsSound) (p : Path) :
    (t.makeDirectories p).2.IsSound := by
  unfold FileTree.makeDirectories
  split
  · exact hsound
  · split
    · exact hsound
    · exact hsound.makeLineage (p :: p.ancestors)

/-! ## Putting files -/

/-- Whether a file can be put under a name in a directory. -/
structure TakesFile (dir : Place t.root) (name : String) (p : Path) : Prop
    extends Names dir name p where
  no_slash : p.endsInSlash = false
  free : ∀ place, dir.child? name = some place → place.node.isDirectory = false

theorem TakesFile.writeFile {dir : Place t.root} {name : String} (h : TakesFile dir name p)
    (content : List UInt8) : t.writeFile p content = .ok (t.put dir name (.file content)) := by
  have hfile : ¬ (name = "." ∨ name = ".." ∨ p.endsInSlash = true) := by
    simp [h.not_dots.1, h.not_dots.2, h.no_slash]
  unfold FileTree.writeFile
  simp only [bind, Except.bind, h.holder]
  rw [if_neg hfile, child?, if_neg h.not_long]
  cases hchild : dir.child? name with
  | none => rfl
  | some place =>
    simp only [h.free place hchild]
    rfl

theorem takesFile_of_writeFile {content : List UInt8} (h : t.writeFile p content = .ok t') :
    ∃ (dir : Place t.root) (name : String), TakesFile dir name p := by
  unfold FileTree.writeFile at h
  cases hholder : t.holder p with
  | error e =>
    rw [hholder] at h
    cases h
  | ok found =>
    obtain ⟨dir, last⟩ := found
    rw [hholder] at h
    cases last with
    | none => cases h
    | some name =>
      simp only [bind, Except.bind] at h
      by_cases hfile : name = "." ∨ name = ".." ∨ p.endsInSlash = true
      · rw [if_pos hfile] at h
        cases h
      · rw [if_neg hfile] at h
        simp only [not_or, Bool.not_eq_true] at hfile
        unfold child? at h
        by_cases hlong : maxName < name.utf8ByteSize
        · rw [if_pos hlong] at h
          cases h
        · rw [if_neg hlong] at h
          refine ⟨dir, name, ⟨hholder, ⟨hfile.1, hfile.2.1⟩, hlong⟩, hfile.2.2, ?_⟩
          intro place hplace
          rw [hplace] at h
          simp only at h
          split at h
          · cases h
          · next hdir => exact Bool.not_eq_true _ ▸ hdir

/-- Whether a file can be put at a path does not depend on its content. -/
theorem isOk_writeFile (t : FileTree) (p : Path) (content content' : List UInt8) :
    (t.writeFile p content).isOk = (t.writeFile p content').isOk := by
  have hsome (a b : List UInt8) (h : (t.writeFile p a).isOk = true) :
      (t.writeFile p b).isOk = true := by
    cases hwrite : t.writeFile p a with
    | error e =>
      rw [hwrite] at h
      cases h
    | ok t' =>
      obtain ⟨dir, name, htakes⟩ := takesFile_of_writeFile hwrite
      rw [htakes.writeFile b]
      rfl
  exact Bool.eq_iff_iff.2 ⟨hsome content content', hsome content' content⟩

/-- **A path under which a file was put leads to that file.** -/
theorem lookup_of_writeFile (hsound : t.IsSound) {content : List UInt8}
    (h : t.writeFile p content = .ok t') :
    ∃ place, t'.lookup p = .ok place ∧ place.node = .file content := by
  obtain ⟨dir, name, htakes⟩ := takesFile_of_writeFile h
  rw [htakes.writeFile content] at h
  cases h
  have hslash : p.endsInSlash = true → Entry.file content = .directory := fun hends =>
    absurd (htakes.no_slash.symm.trans hends) Bool.false_ne_true
  obtain ⟨place, hlookup, -, hentry⟩ := lookup_put htakes.free hsound htakes.toNames _ hslash
  exact ⟨place, hlookup, Node.eq_file_of_entry hentry⟩

end FileTree

end HotFrames

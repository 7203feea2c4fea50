/-!
# Trees of directories and files

What is at a location of a tree, `Node.entryAt?`, is the view through which the tree is described:
`Node.put` changes it at one location and nowhere else.
-/

namespace HotFrames

/-- The names that lead to a place from the root. -/
abbrev Location := List String

/-- What is at a place, with all that is below it. -/
inductive Node
  | file (content : List UInt8)
  /-- a directory, with the names in it in order -/
  | directory (entries : List (String × Node))

/-- What is at a place, without what is below it. -/
inductive Entry
  | file (content : List UInt8)
  | directory
  deriving DecidableEq, Repr

/-- The entry as a node; a directory is empty. -/
def Entry.node : Entry → Node
  | file content => .file content
  | directory => .directory []

namespace Node

/-- What is here. -/
def entry : Node → Entry
  | file content => .file content
  | directory _ => .directory

/-- Whether this is a directory. -/
def isDirectory : Node → Bool
  | file _ => false
  | directory _ => true

theorem entry_of_isDirectory {n : Node} (h : n.isDirectory) : n.entry = .directory := by
  cases n with
  | file => cases h
  | directory => rfl

/-- What a directory holds under a name. -/
def child? : Node → String → Option Node
  | file _, _ => none
  | directory entries, name => entries.lookup name

/-- What is at a location. -/
def at? : Node → Location → Option Node
  | n, [] => some n
  | n, name :: names =>
    match n.child? name with
    | some child => child.at? names
    | none => none

/-- What is at a location, without what is below it. -/
def entryAt? (n : Node) (loc : Location) : Option Entry := (n.at? loc).map entry

/-- The entries of a directory with a node under a name, in place of one that is there. -/
def setChild (name : String) (child : Node) : List (String × Node) → List (String × Node)
  | [] => [(name, child)]
  | e :: es =>
    if name = e.1 then (name, child) :: es
    else if name < e.1 then (name, child) :: e :: es
    else e :: setChild name child es

/-- The tree with an entry under a name in the directory at a location. Where there is no directory
nothing changes. -/
def put (n : Node) (dir : Location) (name : String) (e : Entry) : Node :=
  match n with
  | file content => file content
  | directory entries =>
    match dir with
    | [] => directory (setChild name e.node entries)
    | d :: dir =>
      match entries.lookup d with
      | some child => directory (setChild d (child.put dir name e) entries)
      | none => directory entries

mutual

/-- What is below a node, with locations from there. A directory comes before what it holds. -/
def contents : Node → List (Location × Entry)
  | file _ => []
  | directory entries => contentsOfAll entries

/-- The entries of a directory and what is below them. -/
def contentsOfAll : List (String × Node) → List (Location × Entry)
  | [] => []
  | e :: es => contentsOfEach e ++ contentsOfAll es

/-- An entry of a directory and what is below it. -/
def contentsOfEach : String × Node → List (Location × Entry)
  | (name, child) =>
    ([name], child.entry) :: (contents child).map fun place => (name :: place.1, place.2)

end

/-! ### What a change does -/

theorem lookup_setChild_self (name : String) (child : Node) (entries : List (String × Node)) :
    (setChild name child entries).lookup name = some child := by
  induction entries with
  | nil => exact List.lookup_cons_self
  | cons e es ih =>
    unfold setChild
    split
    · exact List.lookup_cons_self
    · next hne =>
      split
      · exact List.lookup_cons_self
      · have hb : (name == e.1) = false := beq_eq_false_iff_ne.2 hne
        rw [List.lookup_cons, hb]
        exact ih

theorem lookup_setChild_of_ne {name k : String} (child : Node) (entries : List (String × Node))
    (h : k ≠ name) : (setChild name child entries).lookup k = entries.lookup k := by
  have hk : (k == name) = false := beq_eq_false_iff_ne.2 h
  induction entries with
  | nil => rw [setChild, List.lookup_cons, hk]
  | cons e es ih =>
    unfold setChild
    split
    · next he =>
      rw [List.lookup_cons, List.lookup_cons, ← he, hk]
    · split
      · rw [List.lookup_cons, hk]
      · rw [List.lookup_cons, List.lookup_cons, ih]

theorem at?_append (n : Node) (a b : Location) :
    n.at? (a ++ b) = (n.at? a).bind (·.at? b) := by
  induction a generalizing n with
  | nil => rfl
  | cons name a ih =>
    rw [List.cons_append, at?, at?]
    cases n.child? name with
    | none => rfl
    | some child => exact ih child

theorem entryAt?_nil (n : Node) : n.entryAt? [] = some n.entry := rfl

theorem entryAt?_cons (n : Node) (name : String) (loc : Location) :
    n.entryAt? (name :: loc) = (n.child? name).bind (·.entryAt? loc) := by
  unfold entryAt?
  rw [at?]
  split <;> next h => rw [h]; rfl

/-- What is put is there, if the place is in a directory. -/
theorem entryAt?_put_self {n : Node} {dir : Location} (name : String) (e : Entry)
    (h : n.entryAt? dir = some .directory) : (n.put dir name e).entryAt? (dir ++ [name]) = some e := by
  induction dir generalizing n with
  | nil =>
    cases n with
    | file => cases h
    | directory entries =>
      rw [put, List.nil_append, entryAt?_cons, child?, lookup_setChild_self]
      cases e <;> rfl
  | cons d dir ih =>
    cases n with
    | file => cases h
    | directory entries =>
      rw [entryAt?_cons, child?] at h
      rw [put]
      cases hc : entries.lookup d with
      | none => rw [hc] at h; cases h
      | some child =>
        rw [hc] at h
        rw [List.cons_append, entryAt?_cons, child?, lookup_setChild_self]
        exact ih h

/-- Nothing else changes, except that what was below the place is gone. -/
theorem entryAt?_put_of_not_below {n : Node} {dir loc : Location} {name : String} (e : Entry)
    (h : ¬ dir ++ [name] <+: loc) : (n.put dir name e).entryAt? loc = n.entryAt? loc := by
  induction dir generalizing n loc with
  | nil =>
    cases n with
    | file => rfl
    | directory entries =>
      cases loc with
      | nil => rfl
      | cons k loc =>
        have hk : k ≠ name := fun hk => h ⟨loc, by rw [hk]; rfl⟩
        rw [put, entryAt?_cons, entryAt?_cons, child?, child?, lookup_setChild_of_ne _ _ hk]
  | cons d dir ih =>
    cases n with
    | file => rfl
    | directory entries =>
      rw [put]
      cases hc : entries.lookup d with
      | none => rfl
      | some child =>
        cases loc with
        | nil => rfl
        | cons k loc =>
          rw [entryAt?_cons, entryAt?_cons, child?, child?]
          by_cases hk : k = d
          · subst hk
            rw [lookup_setChild_self, hc]
            refine ih fun hp => h ?_
            obtain ⟨more, hm⟩ := hp
            exact ⟨more, by rw [← hm]; rfl⟩
          · rw [lookup_setChild_of_ne _ _ hk]

end Node

end HotFrames

import HotFrames.FileTree.Node

/-!
# Places

A place in a tree, with the way that leads to it from the root, so that the directory above is at
hand.
-/

namespace HotFrames

namespace Node

/-- The end of a way down from a root. A way is given by the names gone through and what each one
leads to, last one first. -/
def wayEnd (root : Node) : List (String × Node) → Node
  | [] => root
  | step :: _ => step.2

/-- Each step of a way goes to what the directory before it holds under the name. -/
def IsWay (root : Node) : List (String × Node) → Prop
  | [] => True
  | step :: way => (root.wayEnd way).child? step.1 = some step.2 ∧ root.IsWay way

end Node

/-- A place in the tree below a root, with the way to it. -/
structure Place (root : Node) where
  /-- The names from the root with what each leads to, last one first. -/
  way : List (String × Node)
  isWay : root.IsWay way

namespace Place

variable {root : Node}

/-- The root. -/
def top : Place root := ⟨[], trivial⟩

/-- What is at the place. -/
def node (p : Place root) : Node := root.wayEnd p.way

/-- The location of the place. -/
def location (p : Place root) : Location := (p.way.map (·.1)).reverse

/-- The place above; the root for the root. -/
def up (p : Place root) : Place root where
  way := p.way.tail
  isWay :=
    match p with
    | ⟨[], _⟩ => trivial
    | ⟨_ :: _, h⟩ => h.2

/-- The place under a name. -/
def child? (p : Place root) (name : String) : Option (Place root) :=
  match h : p.node.child? name with
  | some node => some ⟨(name, node) :: p.way, h, p.isWay⟩
  | none => none

theorem at?_location (p : Place root) : root.at? p.location = some p.node := by
  obtain ⟨way, h⟩ := p
  induction way with
  | nil => rfl
  | cons step way ih =>
    have hw : root.at? (way.map (·.1)).reverse = some (root.wayEnd way) := ih h.2
    simp only [location, List.map_cons, List.reverse_cons]
    rw [Node.at?_append, hw, Option.bind_some, Node.at?, h.1]
    rfl

end Place

end HotFrames

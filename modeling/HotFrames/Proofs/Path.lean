import HotFrames.Path
import HotFrames.Proofs.Text.Parts

/-!
# Lexical ancestors

The ancestors of a path are its nearest one and the ancestors of that one
(`Path.ancestors_of_parent?`), since a path that is cut behind a named piece keeps the pieces in front
and is absolute if the whole path is (`Path.ancestors_ofPieces`).
-/

namespace HotFrames

namespace Path

/-- The longest initial part ends in a named piece, and the other ones are those of what is in front of
this piece. -/
theorem namedParts_eq_cons {pieces own : List String} {parts : List (List String)}
    (h : namedParts pieces = own :: parts) :
    ∃ name rest, own = name :: rest ∧ own <:+ pieces ∧ isNamed rest.isEmpty name = true ∧
      namedParts rest = parts := by
  induction pieces with
  | nil => cases h
  | cons piece pieces ih =>
    rw [namedParts] at h
    by_cases hnamed : isNamed pieces.isEmpty piece = true
    · rw [if_pos hnamed] at h
      obtain ⟨rfl, rfl⟩ := List.cons.inj h
      exact ⟨piece, pieces, rfl, List.suffix_refl _, hnamed, rfl⟩
    · rw [if_neg hnamed] at h
      obtain ⟨name, rest, hown, hsuffix, hrest⟩ := ih h
      exact ⟨name, rest, hown, hsuffix.trans (List.suffix_cons _ _), hrest⟩

theorem not_mem_of_mem_pieces {p : Path} {piece : String} (h : piece ∈ p.pieces) :
    '/' ∉ piece.toList := by
  obtain ⟨part, hpart, rfl⟩ := List.mem_map.1 h
  rw [String.toList_ofList]
  exact not_mem_of_mem_splitOn hpart

theorem pieces_ofPieces {pieces : List String} (hne : pieces ≠ [])
    (h : ∀ piece ∈ pieces, '/' ∉ piece.toList) : (ofPieces pieces).pieces = pieces :=
  splitOn_toList_intercalate rfl hne h

/-- The characters of the path made of pieces. -/
theorem toList_ofPieces (pieces : List String) :
    (ofPieces pieces).text.toList = ['/'].intercalate (pieces.map String.toList) :=
  String.toList_intercalate

theorem toList_eq_intercalate (p : Path) :
    p.text.toList = ['/'].intercalate (p.pieces.map String.toList) := by
  rw [pieces, List.map_map]
  simp [Function.comp_def, List.intercalate_splitOn]

/-- A path that is cut behind a named piece is absolute if the whole path is. -/
theorem isAbsolute_ofPieces {p : Path} {pieces : List String} (hfront : pieces <+: p.pieces)
    (hne : (ofPieces pieces).text.toList ≠ []) : (ofPieces pieces).isAbsolute = p.isAbsolute := by
  have htext : (ofPieces pieces).text.toList <+: p.text.toList := by
    rw [toList_ofPieces, toList_eq_intercalate p]
    exact intercalate_prefix (hfront.map _)
  obtain ⟨more, hmore⟩ := htext
  rw [isAbsolute, isAbsolute, ← hmore, List.head?_append_of_ne_nil _ hne]

/-- The last ancestor has no ancestors. -/
theorem ancestors_top (p : Path) : p.top.ancestors = [] := by
  unfold top
  split <;> rfl

/-- The ancestors of a path that is cut behind a named piece are those in front of this piece. -/
theorem ancestors_ofPieces {p : Path} {name : String} {rest : List String}
    (hinitial : (name :: rest).reverse <+: p.pieces) (hname : isNamed rest.isEmpty name = true) :
    (ofPieces (name :: rest).reverse).ancestors =
      (namedParts rest).map (fun part => ofPieces part.reverse) ++ [p.top] := by
  have hpieces : (ofPieces (name :: rest).reverse).pieces = (name :: rest).reverse :=
    pieces_ofPieces (by simp) fun piece hpiece => not_mem_of_mem_pieces (hinitial.subset hpiece)
  have hne : (ofPieces (name :: rest).reverse).text.toList ≠ [] := by
    intro hnil
    have hempty : (name :: rest).reverse = [""] := by
      rw [← hpieces, pieces, hnil]
      rfl
    obtain ⟨rfl, -⟩ := List.cons.inj (List.reverse_eq_iff.1 hempty)
    cases hname
  rw [ancestors, hpieces, List.reverse_reverse, namedParts, if_pos hname, top,
    isAbsolute_ofPieces hinitial hne]
  rfl

/-- **The ancestors of a path are the nearest one and the ancestors of that one.** -/
theorem ancestors_of_parent? {p parent : Path} (h : p.parent? = some parent) :
    p.ancestors = parent :: parent.ancestors := by
  unfold parent? at h
  rw [ancestors]
  cases hnamed : namedParts p.pieces.reverse with
  | nil =>
    rw [hnamed] at h
    cases h
  | cons own parts =>
    rw [hnamed] at h
    cases parts with
    | nil =>
      obtain rfl := Option.some.inj h
      rw [ancestors_top]
      rfl
    | cons part parts =>
      obtain rfl := Option.some.inj h
      obtain ⟨last, front, rfl, hown, -, hfront⟩ := namedParts_eq_cons hnamed
      obtain ⟨name, rest, rfl, hpart, hname, hrest⟩ := namedParts_eq_cons hfront
      -- The pieces of the parent are the first pieces of the path, up to a named one.
      have hinitial : (name :: rest).reverse <+: p.pieces := by
        rw [← List.reverse_suffix, List.reverse_reverse]
        exact hpart.trans ((List.suffix_cons _ _).trans hown)
      rw [ancestors_ofPieces hinitial hname, hrest]
      rfl

end Path

end HotFrames

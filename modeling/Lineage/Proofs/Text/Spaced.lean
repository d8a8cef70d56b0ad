import Lineage.Proofs.Text.Integer
import Lineage.Proofs.Text.Pieces
import Mathlib.Data.List.TakeWhile

/-!
# Pieces with blanks around them

A text that is laid out with a separator, and with any blanks around its pieces, is cut into these
pieces again: `pieces` cuts it at the separators and `trim` cuts the blanks off
(`trim_pieces_spacedText`).
-/

namespace Lineage.Text

/-! ## Blanks at the ends -/

/-- Blanks around a text do not count. -/
theorem trim_append {before cs after : List Char} (hbefore : ∀ c ∈ before, isBlank c = true)
    (hafter : ∀ c ∈ after, isBlank c = true) : trim (before ++ cs ++ after) = trim cs := by
  have hafter' : ∀ c ∈ after.reverse, isBlank c = true :=
    fun c hc => hafter c (List.mem_reverse.mp hc)
  unfold trim
  rw [List.append_assoc, List.dropWhile_append_of_pos hbefore, List.dropWhile_append]
  split
  · rename_i hempty
    rw [List.isEmpty_iff.mp hempty, List.dropWhile_eq_nil_iff.mpr hafter]
  · rw [List.reverse_append, List.dropWhile_append_of_pos hafter']

/-- Nothing is left of a text if there is nothing in it but blanks. -/
theorem trim_eq_nil_iff {cs : List Char} : trim cs = [] ↔ ∀ c ∈ cs, isBlank c = true := by
  constructor
  · intro h
    rw [trim, List.reverse_eq_nil_iff, List.dropWhile_eq_nil_iff] at h
    rw [← List.dropWhile_eq_nil_iff]
    -- The first cut leaves nothing, or a text whose first character is no blank and stays.
    cases hcut : cs.dropWhile isBlank with
    | nil => rfl
    | cons d ds =>
        have hblank : isBlank d = true := h d (by rw [hcut]; simp)
        have hfirst := List.head?_dropWhile_not isBlank cs
        rw [hcut, List.head?_cons] at hfirst
        exact absurd hblank (ne_true_of_eq_false hfirst)
  · intro h
    rw [trim, List.dropWhile_eq_nil_iff.mpr h]
    rfl

/-! ## Cutting at one character -/

theorem pieces_eq_piecesAt (separator : Char) (cs : List Char) :
    pieces separator cs = piecesAt [separator] cs := by
  induction cs with
  | nil => rw [pieces, piecesAt]
  | cons c cs ih =>
      rw [pieces, piecesAt, ih]
      by_cases hc : c = separator
      · subst hc
        simp
      · cases piecesAt [separator] cs <;>
          simp only [if_neg hc, List.isPrefixOf_cons_cons, beq_false_of_ne (Ne.symm hc),
            Bool.false_and, Bool.false_eq_true, if_false]

/-- Pieces that are joined with a separator come back. -/
theorem pieces_intercalate {separator : Char} {ps : List (List Char)} (hps : ps ≠ [])
    (h : ∀ p ∈ ps, separator ∉ p) : pieces separator ([separator].intercalate ps) = ps := by
  rw [pieces_eq_piecesAt, piecesAt_intercalate hps h]

/-! ## Texts that are laid out -/

/-- A piece and the text on both sides of it. -/
structure Spaced where
  /-- What stands before the piece. -/
  before : List Char
  /-- The piece. -/
  piece : List Char
  /-- What stands behind the piece. -/
  after : List Char

/-- The text of a piece and what is around it. -/
def Spaced.text (x : Spaced) : List Char := x.before ++ x.piece ++ x.after

/-- A piece of at least one character, without the separator and without blanks at its ends, between
blanks. -/
structure Spaced.Around (separator : Char) (x : Spaced) : Prop where
  before : ∀ c ∈ x.before, isBlank c = true
  after : ∀ c ∈ x.after, isBlank c = true
  trimmed : trim x.piece = x.piece
  ne_nil : x.piece ≠ []
  apart : separator ∉ x.piece

/-- Pieces with one blank on either side of each separator, and some text before the first one. -/
def Spaced.row (before : List Char) : List (List Char) → List Spaced
  | [] => []
  | [p] => [⟨before, p, []⟩]
  | p :: q :: ps => ⟨before, p, [' ']⟩ :: row [' '] (q :: ps)

/-- The text of some pieces with a separator between them. -/
def spacedText (separator : Char) (xs : List Spaced) : List Char :=
  [separator].intercalate (xs.map Spaced.text)

section

variable {separator : Char} {xs : List Spaced}

theorem Spaced.map_piece_row (before : List Char) (ps : List (List Char)) :
    (row before ps).map piece = ps := by
  fun_induction row before ps with
  | case1 => rfl
  | case2 => rfl
  | case3 before p q ps ih => rw [List.map_cons, ih]

theorem Spaced.around_row {before : List Char} {ps : List (List Char)}
    (hbefore : ∀ c ∈ before, isBlank c = true)
    (h : ∀ p ∈ ps, trim p = p ∧ p ≠ [] ∧ separator ∉ p) :
    ∀ x ∈ row before ps, x.Around separator := by
  have hblank : ∀ c ∈ [' '], isBlank c = true := List.forall_mem_singleton.mpr rfl
  fun_induction row before ps with
  | case1 => simp
  | case2 before p =>
      obtain ⟨htrim, hne, hfree⟩ := h p (List.mem_singleton_self p)
      rw [List.forall_mem_singleton]
      exact ⟨hbefore, by simp, htrim, hne, hfree⟩
  | case3 before p q ps ih =>
      rw [List.forall_mem_cons] at h
      obtain ⟨⟨htrim, hne, hfree⟩, hrest⟩ := h
      rw [List.forall_mem_cons]
      exact ⟨⟨hbefore, hblank, htrim, hne, hfree⟩, ih hblank hrest⟩

/-- The text of a row of pieces is that of the pieces joined with the separator between two
blanks. -/
theorem spacedText_row (before p : List Char) (ps : List (List Char)) :
    spacedText separator (Spaced.row before (p :: ps)) =
      before ++ [' ', separator, ' '].intercalate (p :: ps) := by
  induction ps generalizing before p with
  | nil => simp [Spaced.row, spacedText, Spaced.text]
  | cons q ps ih =>
      have hrest := ih [' '] q
      rw [List.intercalate_cons_cons, Spaced.row]
      cases hrow : Spaced.row [' '] (q :: ps) with
      | nil => cases ps <;> cases hrow
      | cons x xs =>
          rw [hrow] at hrest
          rw [spacedText, List.map_cons, List.map_cons, List.intercalate_cons_cons,
            ← List.map_cons, ← spacedText, hrest]
          simp [Spaced.text]

theorem Spaced.Around.not_mem {x : Spaced} (hseparator : isBlank separator = false)
    (h : x.Around separator) : separator ∉ x.text := by
  intro hmem
  rw [text, List.mem_append, List.mem_append] at hmem
  rcases hmem with (hbefore | hpiece) | hafter
  · rw [h.before _ hbefore] at hseparator
    cases hseparator
  · exact h.apart hpiece
  · rw [h.after _ hafter] at hseparator
    cases hseparator

/-- The pieces that were laid out come back. -/
theorem trim_pieces_spacedText (hseparator : isBlank separator = false) (hxs : xs ≠ [])
    (h : ∀ x ∈ xs, x.Around separator) :
    (pieces separator (spacedText separator xs)).map trim = xs.map Spaced.piece := by
  have hfree : ∀ p ∈ xs.map Spaced.text, separator ∉ p := by
    intro p hp
    obtain ⟨x, hx, rfl⟩ := List.mem_map.mp hp
    exact (h x hx).not_mem hseparator
  have hne : xs.map Spaced.text ≠ [] := fun hnil => hxs (List.map_eq_nil_iff.mp hnil)
  rw [spacedText, pieces_intercalate hne hfree, List.map_map]
  refine List.map_congr_left fun x hx => ?_
  exact (trim_append (h x hx).before (h x hx).after).trans (h x hx).trimmed

/-- A text that is laid out from pieces is not blank. -/
theorem trim_spacedText_ne_nil (hxs : xs ≠ []) (h : ∀ x ∈ xs, x.Around separator) :
    trim (spacedText separator xs) ≠ [] := by
  obtain ⟨x, xs', rfl⟩ := List.exists_cons_of_ne_nil hxs
  have hx := h x (List.mem_cons_self ..)
  have hpiece : ∀ c ∈ x.piece, c ∈ spacedText separator (x :: xs') := by
    intro c hc
    have htext : c ∈ x.text := List.mem_append_left _ (List.mem_append_right _ hc)
    cases xs' with
    | nil =>
        rw [spacedText, List.map_cons, List.map_nil, List.intercalate_singleton]
        exact htext
    | cons y ys =>
        rw [spacedText, List.map_cons, List.map_cons, List.intercalate_cons_cons]
        exact List.mem_append_left _ (List.mem_append_left _ htext)
  intro hnil
  have hblank := trim_eq_nil_iff.mpr fun c hc => trim_eq_nil_iff.mp hnil c (hpiece c hc)
  exact hx.ne_nil (hx.trimmed.symm.trans hblank)

end

end Lineage.Text

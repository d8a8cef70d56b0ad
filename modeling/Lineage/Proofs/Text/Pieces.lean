/-!
# Texts cut at a separator

A text is cut wherever a separator of any length stands, from the left and without overlaps
(`piecesAt`).  There is one more piece than separators, so the empty text is one empty piece.

Texts that lack the first character of the separator come back when they are joined with it
(`piecesAt_intercalate`).
-/

namespace Lineage.Text

/-- The pieces of a text between the separators. -/
def piecesAt (separator : List Char) : List Char → List (List Char)
  | [] => [[]]
  | c :: cs =>
    if separator.isPrefixOf (c :: cs) then [] :: piecesAt separator (cs.drop (separator.length - 1))
    else
      match piecesAt separator cs with
      | [] => [[c]]
      | p :: ps => (c :: p) :: ps
termination_by cs => cs.length
decreasing_by
  · rw [List.length_drop, List.length_cons]
    omega
  · simp

/-- The pieces of a string between the separators. -/
def piecesOf (separator text : String) : List String :=
  (piecesAt separator.toList text.toList).map String.ofList

section

variable {s : Char} {ss : List Char}

/-- What stands before the first separator is the front of the first piece. -/
theorem piecesAt_append {p : List Char} (hp : s ∉ p) {rest first : List Char}
    {later : List (List Char)} (hrest : piecesAt (s :: ss) rest = first :: later) :
    piecesAt (s :: ss) (p ++ rest) = (p ++ first) :: later := by
  induction p with
  | nil => exact hrest
  | cons c p ih =>
      rw [List.mem_cons, not_or] at hp
      have hskip : (s :: ss).isPrefixOf (c :: (p ++ rest)) = false := by
        rw [List.isPrefixOf_cons_cons, beq_false_of_ne hp.1, Bool.false_and]
      rw [List.cons_append, piecesAt, hskip, if_neg Bool.false_ne_true, ih hp.2]
      rfl

theorem piecesAt_nil (separator : List Char) : piecesAt separator [] = [[]] := by
  rw [piecesAt]

theorem piecesAt_separator (rest : List Char) :
    piecesAt (s :: ss) (s :: ss ++ rest) = [] :: piecesAt (s :: ss) rest := by
  have hcut : (s :: ss).isPrefixOf (s :: (ss ++ rest)) = true :=
    List.isPrefixOf_iff_prefix.mpr (List.prefix_append (s :: ss) rest)
  rw [List.cons_append, piecesAt, hcut, if_pos rfl, List.length_cons,
    Nat.add_sub_cancel, List.drop_left]

/-- Pieces that are joined with a separator come back. -/
theorem piecesAt_intercalate {ps : List (List Char)} (hps : ps ≠ []) (h : ∀ p ∈ ps, s ∉ p) :
    piecesAt (s :: ss) ((s :: ss).intercalate ps) = ps := by
  induction ps with
  | nil => exact absurd rfl hps
  | cons p ps ih =>
      rw [List.forall_mem_cons] at h
      cases ps with
      | nil =>
          have hlast := piecesAt_append h.1 (piecesAt_nil (s :: ss))
          rw [List.append_nil] at hlast
          rw [List.intercalate_singleton, hlast]
      | cons q ps =>
          have hcut := @piecesAt_separator s ss ((s :: ss).intercalate (q :: ps))
          have hfirst := piecesAt_append h.1 hcut
          rw [List.append_nil, ih (List.cons_ne_nil q ps) h.2] at hfirst
          rw [List.intercalate_cons_cons, List.append_assoc, hfirst]

end

/-- The empty string is one empty piece. -/
theorem piecesOf_empty (separator : String) : piecesOf separator "" = [""] := by
  rw [piecesOf, String.toList_empty, piecesAt_nil]
  rfl

/-- Strings that are joined with a separator come back. -/
theorem piecesOf_intercalate {separator : String} {s : Char} {ss : List Char}
    (hseparator : separator.toList = s :: ss) {ts : List String} (hts : ts ≠ [])
    (h : ∀ t ∈ ts, s ∉ t.toList) : piecesOf separator (separator.intercalate ts) = ts := by
  have hps : ts.map String.toList ≠ [] := fun hnil => hts (List.map_eq_nil_iff.mp hnil)
  have hfree : ∀ p ∈ ts.map String.toList, s ∉ p := by
    intro p hp
    obtain ⟨t, ht, rfl⟩ := List.mem_map.mp hp
    exact h t ht
  rw [piecesOf, String.toList_intercalate, hseparator, piecesAt_intercalate hps hfree, List.map_map]
  exact (List.map_congr_left fun t _ => String.ofList_toList).trans (List.map_id _)

end Lineage.Text

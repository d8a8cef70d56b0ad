import Lineage.Proofs.Audit.RoundTrip

/-!
# A journal line by line

A text is cut behind each of its line feeds into the lines that end and what stands behind the last
of them (`InLines`).  A journal is read line by line, and what a line gives (`lineShare`) depends on
nothing but the line and its number: its events, or its one error, or nothing if it is blank.

`reader_answers` says what each call of `Reader.next` gives, also those behind the last item.
-/

namespace Lineage.Audit

open Lineage.Json
open Lineage.Json.Grammar
open Lineage.Session (numberFrom numberFrom_blank numberFrom_cons)

/-! ## Lines of a text -/

/-- The lines of a text that end in a line feed, and what stands behind them. -/
inductive InLines : Bytes → List Bytes → Bytes → Prop
  /-- There is no line feed any more. -/
  | rest {s : Bytes} : lineFeed ∉ s → InLines s [] s
  /-- A line that ends, and more of them. -/
  | line {t s rest : Bytes} {ended : List Bytes} : lineFeed ∉ t → InLines s ended rest →
    InLines (t ++ lineFeed :: s) ((t ++ [lineFeed]) :: ended) rest

theorem exists_inLines (s : Bytes) : ∃ ended rest, InLines s ended rest := by
  by_cases h : lineFeed ∈ s
  · obtain ⟨t, r, hs, ht⟩ := List.eq_append_cons_of_mem h
    obtain ⟨ended, rest, hr⟩ := exists_inLines r
    exact ⟨(t ++ [lineFeed]) :: ended, rest, hs ▸ InLines.line ht hr⟩
  · exact ⟨[], s, .rest h⟩
termination_by s.length
decreasing_by
  rw [hs, List.length_append, List.length_cons]
  omega

namespace InLines

variable {s rest : Bytes} {ended : List Bytes}

/-- A text in front that consists of lines that end adds its lines. -/
theorem append {before : Bytes} {earlier : List Bytes} (hbefore : InLines before earlier [])
    (h : InLines s ended rest) : InLines (before ++ s) (earlier ++ ended) rest := by
  generalize hnil : ([] : Bytes) = last at hbefore
  induction hbefore with
  | rest =>
      subst hnil
      exact h
  | line ht _ ih =>
      rw [List.append_assoc, List.cons_append]
      exact .line ht (ih hnil)

/-- Nothing stands behind the lines of a text that ends in a line feed. -/
theorem rest_eq_nil (h : InLines s ended rest) (hend : s = [] ∨ s.getLast? = some lineFeed) :
    rest = [] := by
  induction h with
  | rest hs =>
      rcases hend with rfl | hlast
      · rfl
      · exact absurd (List.mem_of_getLast? hlast) hs
  | @line t s rest _ _ h ih =>
      refine ih ?_
      cases s with
      | nil => exact .inl rfl
      | cons b s =>
          refine .inr ?_
          rw [List.getLast?_append, List.getLast?_cons_cons] at hend
          simpa using hend

theorem isComplete_of_mem (h : InLines s ended rest) :
    ∀ line ∈ ended, isComplete line = true := by
  induction h with
  | rest => exact fun line hline => absurd hline List.not_mem_nil
  | line _ _ ih => exact List.forall_mem_cons.mpr ⟨by simp [isComplete], ih⟩

theorem length_ended (h : InLines s ended rest) : ended.length = s.count lineFeed := by
  induction h with
  | rest hs => exact (List.count_eq_zero.mpr hs).symm
  | line ht _ ih =>
      rw [List.length_cons, ih, List.count_append, List.count_eq_zero.mpr ht, List.count_cons_self,
        Nat.zero_add]

theorem not_mem_rest (h : InLines s ended rest) : lineFeed ∉ rest := by
  induction h with
  | rest hs => exact hs
  | line _ _ ih => exact ih

/-- What stands behind the last line feed is a line too, unless it is empty. -/
theorem splitLines_eq (h : InLines s ended rest) :
    splitLines s = ended ++ if rest = [] then [] else [rest] := by
  induction h with
  | @rest s hs =>
      cases s with
      | nil => rw [splitLines_nil]; rfl
      | cons b s => rw [splitLines_cons, splitLine_last hs, splitLines_nil, if_neg (by simp)]; rfl
  | @line t s rest ended ht _ ih =>
      obtain ⟨b, r, hcons⟩ : ∃ b r, t ++ lineFeed :: s = b :: r := by cases t <;> simp
      rw [hcons, splitLines_cons, ← hcons, splitLine_lineFeed ht, ih, List.cons_append]

/-- The lines that can be read are those that end, and a last one if the source does not fail. -/
theorem lines_eq (h : InLines s ended rest) (failure : Option String) :
    (⟨s, failure⟩ : Source).lines =
      ended ++ if failure = none ∧ rest ≠ [] then [rest] else [] := by
  cases failure with
  | none => simp [Source.lines, h.splitLines_eq]
  | some reason =>
      have hended : ended.filter isComplete = ended := List.filter_eq_self.mpr h.isComplete_of_mem
      have hrest : (if rest = [] then [] else [rest]).filter isComplete = [] := by
        refine List.filter_eq_nil_iff.mpr fun line hline hcomplete => ?_
        split at hline
        · cases hline
        · rw [List.mem_singleton.mp hline, isComplete, beq_iff_eq] at hcomplete
          exact h.not_mem_rest (List.mem_of_getLast? hcomplete)
      simp [Source.lines, h.splitLines_eq, hended, hrest]

end InLines

/-! ## What a line gives -/

/-- Some byte of a line is neither space nor tab, line feed, form feed or carriage return. -/
def HoldsText (line : Bytes) : Prop :=
  ∃ b ∈ line, b ∉ ([0x20, 0x09, 0x0a, 0x0c, 0x0d] : Bytes)

instance (line : Bytes) : Decidable (HoldsText line) :=
  List.decidableBEx (· ∉ ([0x20, 0x09, 0x0a, 0x0c, 0x0d] : Bytes)) line

/-- What a line with a number gives to its journal. -/
def lineShare (number : Nat) (line : Bytes) : List Item :=
  if HoldsText line then lineItems number line else []

theorem holdsText_iff {line : Bytes} : HoldsText line ↔ isBlankLine line = false := by
  rw [HoldsText, isBlankLine, List.all_eq_false]
  refine exists_congr fun b => and_congr_right fun _ => not_congr ?_
  simp only [isLineBlank, isBlank, Bool.or_eq_true, beq_iff_eq, List.mem_cons, List.not_mem_nil]
  tauto

theorem lineShare_eq (number : Nat) (line : Bytes) :
    lineShare number line = if isBlankLine line then [] else lineItems number line := by
  cases hblank : isBlankLine line with
  | true => rw [lineShare, if_neg (by simp [holdsText_iff, hblank])]; rfl
  | false => rw [lineShare, if_pos (holdsText_iff.mpr hblank)]; rfl

/-- A text without records holds nothing but blanks. -/
theorem skipBlanks_of_readEvents_nil {s : Bytes} (h : readEvents s = .ok []) :
    skipBlanks s = [] := by
  rw [readEvents] at h
  split at h
  next hs => exact hs
  next =>
    split at h
    next => cases h
    next =>
      split at h
      next => cases h
      next =>
        split at h
        next => cases h
        next => cases h

/-- A line that is not blank holds a record or a fault. -/
theorem lineItems_ne_nil (number : Nat) {line : Bytes} (h : HoldsText line) :
    lineItems number line ≠ [] := by
  unfold lineItems
  split
  next events hread =>
    intro hnil
    rw [List.map_eq_nil_iff.mp hnil, readLine_eq_ok_iff] at hread
    have happend := List.takeWhile_append_dropWhile (p := isBlank) (l := line)
    rw [← skipBlanks, skipBlanks_of_readEvents_nil hread, List.append_nil] at happend
    have hblanks : line.all isBlank = true := happend ▸ List.all_takeWhile
    have hblank : isBlankLine line = true :=
      List.all_eq_true.mpr fun b hb =>
        Bool.or_eq_true_iff.mpr (.inl (List.all_eq_true.mp hblanks b hb))
    rw [holdsText_iff, hblank] at h
    cases h
  next => exact List.cons_ne_nil _ _

/-- What some lines give, the first of them with the given number. -/
def lineShares (number : Nat) (lines : List Bytes) : List Item :=
  (lines.zipIdx number).flatMap fun p => lineShare p.2 p.1

theorem lineShares_cons (number : Nat) (line : Bytes) (lines : List Bytes) :
    lineShares number (line :: lines) = lineShare number line ++ lineShares (number + 1) lines := by
  rw [lineShares, List.zipIdx_cons, List.flatMap_cons, ← lineShares]

theorem lineShares_append (number : Nat) (lines lines' : List Bytes) :
    lineShares number (lines ++ lines') =
      lineShares number lines ++ lineShares (number + lines.length) lines' := by
  rw [lineShares, List.zipIdx_append, List.flatMap_append]
  rfl

theorem flatMap_numberFrom (number : Nat) (lines : List Bytes) :
    ((numberFrom number lines).flatMap fun p => lineItems p.1 p.2) =
      lineShares (number + 1) lines := by
  induction lines generalizing number with
  | nil => rfl
  | cons line lines ih =>
      rw [lineShares_cons, lineShare_eq]
      cases hblank : isBlankLine line with
      | true => rw [numberFrom_blank hblank, ih]; rfl
      | false => rw [numberFrom_cons hblank, List.flatMap_cons, ih]; rfl

/-! ## What a journal gives -/

/-- What a journal gives behind its lines: an error if the source fails. -/
def failureShare (number : Nat) (failure : Option String) : List Item :=
  (failure.map fun reason => .error ⟨number, .source reason⟩).toList

/-- The lines of a journal give their shares in order, and a source that fails an error behind
them. -/
theorem InLines.items_eq {s : Source} {ended : List Bytes} {rest : Bytes}
    (h : InLines s.bytes ended rest) :
    s.items =
      lineShares 1 (ended ++ if s.failure = none ∧ rest ≠ [] then [rest] else []) ++
        failureShare (ended.length + 1) s.failure := by
  have hlines := h.lines_eq s.failure
  rw [Source.items_eq, Source.itemsFrom, flatMap_numberFrom, hlines]
  cases hfailure : s.failure with
  | none => rfl
  | some reason => simp [failureShare]

/-- A line that ends gives its share between those of the others. -/
theorem InLines.items_between {before after rest : Bytes} {earlier later : List Bytes}
    (hbefore : InLines before earlier []) (hafter : InLines after later rest)
    (failure : Option String) {t : Bytes} (ht : lineFeed ∉ t) :
    (⟨before ++ t ++ lineFeed :: after, failure⟩ : Source).items =
      lineShares 1 earlier ++ lineShare (earlier.length + 1) (t ++ [lineFeed]) ++
        (lineShares (earlier.length + 2) (later ++ if failure = none ∧ rest ≠ [] then
          [rest] else []) ++
          failureShare (earlier.length + later.length + 2) failure) := by
  have hnumber : (earlier ++ (t ++ [lineFeed]) :: later).length + 1 =
      earlier.length + later.length + 2 := by
    rw [List.length_append, List.length_cons]
    rfl
  have hlines : InLines (before ++ t ++ lineFeed :: after)
      (earlier ++ (t ++ [lineFeed]) :: later) rest := by
    rw [List.append_assoc]
    exact hbefore.append (.line ht hafter)
  rw [hlines.items_eq, hnumber, List.append_assoc, List.cons_append,
    lineShares_append, lineShares_cons, Nat.add_comm 1]
  simp only [List.append_assoc]

namespace Reader

/-- What the next call gives behind some others. -/
def answer (r : Reader) : Nat → Option Item
  | 0 => r.next.1
  | n + 1 => r.next.2.answer n

/-- A reader gives what it has left call by call, and then nothing. -/
theorem answer_eq (r : Reader) (n : Nat) : r.answer n = r.remaining[n]? := by
  induction n generalizing r with
  | zero =>
      obtain ⟨hnext, hend⟩ := r.next_remaining
      rw [answer, hnext]
      cases hitem : r.next.1 with
      | none => rw [hend hitem]; rfl
      | some item => rfl
  | succ n ih =>
      obtain ⟨hnext, hend⟩ := r.next_remaining
      rw [answer, ih, hnext]
      cases hitem : r.next.1 with
      | none => rw [hend hitem]; rfl
      | some item => rfl

theorem answer_new (s : Source) (n : Nat) : (new s).answer n = s.items[n]? := by
  rw [answer_eq, remaining_new]

end Reader

/-- A reader gives the shares of the lines in order, each line with its number, and behind them the
error of the source if it fails, and then nothing any more.  Every line that holds text has a share.
And whatever stands in a line that ends, the items of the other lines are the same. -/
theorem reader_answers (s : Source) :
    (∃ ended rest, InLines s.bytes ended rest ∧
      ∀ n, (Reader.new s).answer n =
        (lineShares 1 (ended ++ if s.failure = none ∧ rest ≠ [] then [rest] else []) ++
          failureShare (ended.length + 1) s.failure)[n]?) ∧
    (∀ number line, HoldsText line → lineShare number line ≠ []) ∧
    ∀ before after : Bytes, before = [] ∨ before.getLast? = some lineFeed →
      ∃ front back, ∀ t, lineFeed ∉ t → ∀ n,
        (Reader.new ⟨before ++ t ++ lineFeed :: after, s.failure⟩).answer n =
          (front ++ lineShare (before.count lineFeed + 1) (t ++ [lineFeed]) ++ back)[n]? := by
  refine ⟨?_, fun number line h => ?_, fun before after hend => ?_⟩
  · obtain ⟨ended, rest, h⟩ := exists_inLines s.bytes
    exact ⟨ended, rest, h, fun n => by rw [Reader.answer_new, h.items_eq]⟩
  · rw [lineShare, if_pos h]
    exact lineItems_ne_nil number h
  · obtain ⟨earlier, last, hbefore⟩ := exists_inLines before
    obtain ⟨later, rest, hafter⟩ := exists_inLines after
    obtain rfl := hbefore.rest_eq_nil hend
    refine ⟨lineShares 1 earlier,
      lineShares (earlier.length + 2) (later ++ if s.failure = none ∧ rest ≠ [] then
        [rest] else []) ++
        failureShare (earlier.length + later.length + 2) s.failure, fun t ht n => ?_⟩
    rw [Reader.answer_new, hbefore.items_between hafter s.failure ht, hbefore.length_ended]

/-- A form feed makes a line blank.  Whatever stands in the second line of this journal, the item
behind it, which is the failure of its source, is the same. -/
theorem reader_answers_replaced :
    lineShare 1 [0x0c, lineFeed] = [] ∧ HoldsText [0x78, lineFeed] ∧
      lineShare 2 [0x78, lineFeed] ≠ [] ∧
    ∃ front back, ∀ t ∈ ([[0x78], [0x0c], [0x7b, 0x7d]] : List Bytes), ∀ n,
      (Reader.new ⟨[0x0c, lineFeed] ++ t ++ lineFeed :: [0x79], some "cut"⟩).answer n =
        (front ++ lineShare 2 (t ++ [lineFeed]) ++ back)[n]? := by
  obtain ⟨_, hshare, hreplace⟩ := reader_answers ⟨[], some "cut"⟩
  have htext : HoldsText [0x78, lineFeed] := by decide
  obtain ⟨front, back, hitems⟩ := hreplace [0x0c, lineFeed] [0x79] (.inr rfl)
  refine ⟨rfl, htext, hshare 2 _ htext, front, back, fun t ht n => hitems t ?_ n⟩
  revert t
  decide

end Lineage.Audit

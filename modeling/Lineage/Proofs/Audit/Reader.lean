import Lineage.Proofs.Session.Digest

/-!
# A reader gives the items of its journal

`Reader.remaining` is what a reader still has to give: the events that are pending, and the items of
the lines that are unread.  `Reader.next` takes the first of them (`next_remaining`), so a reader
that is asked until its end gives all of them in order (`Reader.toList_new`).
-/

namespace Lineage.Audit

open Lineage.Json
open Lineage.Session (numberFrom numberFrom_blank numberFrom_cons)

/-! ## Lines -/

theorem splitLine_append (s : Bytes) : (splitLine s).1 ++ (splitLine s).2 = s := by
  have happend := List.takeWhile_append_dropWhile (p := (· != lineFeed)) (l := s)
  unfold splitLine
  split
  · exact List.append_nil s
  · rename_i b r heq
    rw [heq] at happend
    simpa using happend

/-- Only the last line of a text lacks its line feed. -/
theorem splitLine_snd_of_incomplete {s : Bytes} (h : isComplete (splitLine s).1 = false) :
    (splitLine s).2 = [] := by
  unfold splitLine at h ⊢
  split at h
  · rfl
  · rename_i b r heq
    have hstop : b = lineFeed := by
      have hhead := List.head?_dropWhile_not (· != lineFeed) s
      rw [heq] at hhead
      simpa using hhead
    simp [isComplete, hstop] at h

theorem splitLines_nil : splitLines [] = [] := by
  rw [splitLines]

theorem splitLines_cons (b : UInt8) (s : Bytes) :
    splitLines (b :: s) = (splitLine (b :: s)).1 :: splitLines (splitLine (b :: s)).2 := by
  rw [splitLines]

namespace Source

theorem lines_nil (failure : Option String) : (⟨[], failure⟩ : Source).lines = [] := by
  cases failure <;> simp [lines, splitLines_nil]

/-- The first line is one of those that can be read, unless the source fails in it. -/
theorem lines_cons {b : UInt8} {s : Bytes} {failure : Option String}
    (h : failure = none ∨ isComplete (splitLine (b :: s)).1 = true) :
    (⟨b :: s, failure⟩ : Source).lines =
      (splitLine (b :: s)).1 :: (⟨(splitLine (b :: s)).2, failure⟩ : Source).lines := by
  cases failure with
  | none => exact splitLines_cons b s
  | some reason =>
      have hcomplete := h.resolve_left (by simp)
      simp only [lines, splitLines_cons b s, List.filter_cons, hcomplete, if_true]

theorem lines_incomplete {b : UInt8} {s : Bytes} {reason : String}
    (h : isComplete (splitLine (b :: s)).1 = false) :
    (⟨b :: s, some reason⟩ : Source).lines = [] := by
  simp only [lines, splitLines_cons b s, splitLine_snd_of_incomplete h, splitLines_nil,
    List.filter_cons, h, List.filter_nil, Bool.false_eq_true, if_false]

/-! ## Items -/

/-- What a journal holds when its lines are numbered behind `line`. -/
def itemsFrom (line : Nat) (s : Source) : List Item :=
  ((numberFrom line s.lines).flatMap fun p => lineItems p.1 p.2) ++
    (s.failure.map fun reason => .error ⟨line + s.lines.length + 1, .source reason⟩).toList

theorem items_eq (s : Source) : s.items = s.itemsFrom 0 := by
  rw [items, itemsFrom, error?, Nat.zero_add, Option.map_map]
  rfl

theorem itemsFrom_nil (line : Nat) (failure : Option String) :
    itemsFrom line ⟨[], failure⟩ =
      (failure.map fun reason => .error ⟨line + 1, .source reason⟩).toList := by
  rw [itemsFrom, lines_nil]
  rfl

theorem itemsFrom_incomplete {b : UInt8} {s : Bytes} {reason : String} (line : Nat)
    (h : isComplete (splitLine (b :: s)).1 = false) :
    itemsFrom line ⟨b :: s, some reason⟩ = [.error ⟨line + 1, .source reason⟩] := by
  rw [itemsFrom, lines_incomplete h]
  rfl

theorem itemsFrom_cons {b : UInt8} {s : Bytes} {failure : Option String} (line : Nat)
    (h : failure = none ∨ isComplete (splitLine (b :: s)).1 = true) :
    itemsFrom line ⟨b :: s, failure⟩ =
      (if isBlankLine (splitLine (b :: s)).1 then []
        else lineItems (line + 1) (splitLine (b :: s)).1) ++
      itemsFrom (line + 1) ⟨(splitLine (b :: s)).2, failure⟩ := by
  rw [itemsFrom, itemsFrom, lines_cons h, List.length_cons, ← Nat.add_assoc,
    Nat.add_right_comm line _ 1]
  split
  · rename_i hblank
    rw [numberFrom_blank hblank, List.nil_append]
  · rename_i hblank
    rw [numberFrom_cons (Bool.not_eq_true _ ▸ hblank), List.flatMap_cons, List.append_assoc]

end Source

/-! ## One item at a time -/

namespace Reader

/-- What a reader still has to give. -/
def remaining (r : Reader) : List Item :=
  r.pending.map .ok ++ if r.ended then [] else Source.itemsFrom r.line ⟨r.rest, r.failure⟩

theorem remaining_new (s : Source) : (new s).remaining = s.items :=
  s.items_eq.symm

theorem remaining_finish {r : Reader} (h : r.pending = []) : r.finish.remaining = [] := by
  simp [finish, remaining, h]

theorem remaining_of_open {r : Reader} (hpending : r.pending = []) (hended : r.ended = false) :
    r.remaining = Source.itemsFrom r.line ⟨r.rest, r.failure⟩ := by
  simp [remaining, hpending, hended]

/-- A line that can be read gives its items, unless it is blank. -/
theorem remaining_cons {r : Reader} {b : UInt8} {s : Bytes} (hrest : r.rest = b :: s)
    (hpending : r.pending = []) (hended : r.ended = false)
    (hread : ∀ reason, r.failure = some reason →
      isComplete (splitLine (b :: s)).1 = false → False) :
    r.remaining =
      (if isBlankLine (splitLine (b :: s)).1 then []
        else lineItems (r.line + 1) (splitLine (b :: s)).1) ++
      remaining { r with rest := (splitLine (b :: s)).2, line := r.line + 1 } := by
  have hsound : r.failure = none ∨ isComplete (splitLine (b :: s)).1 = true := by
    cases hfailure : r.failure with
    | none => exact .inl rfl
    | some reason =>
        refine .inr ?_
        cases hcomplete : isComplete (splitLine (b :: s)).1 with
        | true => rfl
        | false => exact (hread reason hfailure hcomplete).elim
  rw [remaining_of_open hpending hended, hrest, Source.itemsFrom_cons _ hsound]
  refine congrArg _ (Eq.symm ?_)
  exact remaining_of_open (r := { r with rest := _, line := r.line + 1 }) hpending hended

/-- The next line that gives anything gives the first item, and leaves the others. -/
theorem nextLine_remaining (r : Reader) (hpending : r.pending = []) (hended : r.ended = false) :
    r.remaining = r.nextLine.1.toList ++ r.nextLine.2.remaining ∧
      (r.nextLine.1 = none → r.nextLine.2.remaining = []) := by
  fun_induction nextLine r
  case case1 r hrest hfailure =>
      rw [remaining_of_open hpending hended, hrest, hfailure, Source.itemsFrom_nil]
      exact ⟨(remaining_finish hpending).symm, fun _ => remaining_finish hpending⟩
  case case2 r hrest reason hfailure =>
      rw [remaining_of_open hpending hended, hrest, hfailure, Source.itemsFrom_nil]
      refine ⟨?_, fun hnone => by cases hnone⟩
      rw [remaining_finish hpending]
      rfl
  case case3 r b s hrest text reason hcomplete hfailure =>
      rw [remaining_of_open hpending hended, hrest, hfailure,
        Source.itemsFrom_incomplete _ hcomplete]
      refine ⟨?_, fun hnone => by cases hnone⟩
      rw [remaining_finish hpending]
      rfl
  case case4 r b s hrest text rest r' hblank hread ih =>
      rw [remaining_cons hrest hpending hended hread, if_pos hblank, List.nil_append]
      exact ih hpending hended
  case case5 r b s hrest text rest r' hblank e hline hread =>
      rw [remaining_cons hrest hpending hended hread, if_neg hblank, lineItems, hline]
      exact ⟨rfl, fun hnone => by cases hnone⟩
  case case6 r b s hrest text rest r' hblank hline hread ih =>
      rw [remaining_cons hrest hpending hended hread, if_neg hblank, lineItems, hline]
      exact ih hpending hended
  case case7 r b s hrest text rest r' hblank event events hline hread =>
      rw [remaining_cons hrest hpending hended hread, if_neg hblank, lineItems, hline]
      refine ⟨?_, fun hnone => by cases hnone⟩
      simp [remaining, hpending, hended, r', rest]

/-- A reader gives the first item of those it has left. -/
theorem next_remaining (r : Reader) :
    r.remaining = r.next.1.toList ++ r.next.2.remaining ∧
      (r.next.1 = none → r.next.2.remaining = []) := by
  unfold next
  split
  · rename_i event events hpending
    refine ⟨?_, fun hnone => by cases hnone⟩
    simp [remaining, hpending]
  · rename_i hpending
    split
    · rename_i hended
      have hnone : r.remaining = [] := by
        simp [remaining, hpending, hended]
      exact ⟨rfl, fun _ => hnone⟩
    · rename_i hended
      exact nextLine_remaining r hpending (Bool.not_eq_true _ ▸ hended)

/-- With fuel enough a reader gives all it has left. -/
theorem drain_eq_remaining {fuel : Nat} {r : Reader} (h : r.remaining.length < fuel) :
    (drain fuel r).1 = r.remaining := by
  induction fuel generalizing r with
  | zero => cases h
  | succ fuel ih =>
      obtain ⟨hnext, hend⟩ := r.next_remaining
      rw [drain]
      split
      · rename_i r' heq
        rw [heq] at hnext hend
        rw [hnext, hend rfl]
        rfl
      · rename_i item r' heq
        rw [heq] at hnext
        rw [hnext] at h ⊢
        exact congrArg (item :: ·) (ih (Nat.lt_of_succ_lt_succ h))

end Reader

/-! ## No more items than bytes -/

/-- Every event of a text takes a byte at least. -/
theorem length_readEvents_le {s : Bytes} {events : List Event} (h : readEvents s = .ok events) :
    events.length ≤ s.length := by
  fun_induction readEvents s generalizing events
  case case1 =>
      cases h
      exact Nat.zero_le _
  case case5 s b r hskip entries r' hrecord event hevent more hmore ih =>
      cases h
      have hblanks := length_skipBlanks_le s
      have hshort := length_readRecord_lt hrecord
      have hmore' := ih hmore
      rw [hskip] at hblanks
      rw [List.length_cons]
      omega
  all_goals cases h

/-- A line gives the events of its text, whatever its number. -/
theorem readLine_eq_ok_iff {line : Nat} {text : Bytes} {events : List Event} :
    readLine line text = .ok events ↔ readEvents text = .ok events := by
  unfold readLine readDocument
  cases readEvents text with
  | ok events' =>
      constructor
      · intro h
        cases h
        rfl
      · intro h
        cases h
        rfl
  | error stop =>
      constructor
      · intro h
        cases h
      · intro h
        cases h

theorem length_readLine_le {line : Nat} {text : Bytes} {events : List Event}
    (h : readLine line text = .ok events) : events.length ≤ text.length :=
  length_readEvents_le (readLine_eq_ok_iff.mp h)

theorem length_lineItems_le (line : Nat) {text : Bytes} (h : isBlankLine text = false) :
    (lineItems line text).length ≤ text.length := by
  unfold lineItems
  split
  · rename_i events hread
    rw [List.length_map]
    exact length_readLine_le hread
  · refine List.length_pos_iff.mpr fun hnil => ?_
    rw [hnil] at h
    cases h

/-- A text gives no more items than it has bytes, and the source one more. -/
theorem Source.length_itemsFrom_le (line : Nat) (failure : Option String) (s : Bytes) :
    (itemsFrom line ⟨s, failure⟩).length ≤ s.length + 1 := by
  match s with
  | [] =>
      rw [itemsFrom_nil]
      cases failure <;> simp
  | b :: s =>
      have hbytes := congrArg List.length (splitLine_append (b :: s))
      rw [List.length_append] at hbytes
      have hread : failure = none ∨ isComplete (splitLine (b :: s)).1 = true ∨
          isComplete (splitLine (b :: s)).1 = false ∧ ∃ reason, failure = some reason := by
        cases failure <;> cases isComplete (splitLine (b :: s)).1 <;> simp
      rcases or_assoc.mpr hread with hsound | ⟨hcut, reason, rfl⟩
      · have hrest := length_itemsFrom_le (line + 1) failure (splitLine (b :: s)).2
        rw [itemsFrom_cons line hsound, List.length_append]
        split
        · rw [List.length_nil]
          omega
        · rename_i hblank
          have hline := length_lineItems_le (line + 1) (Bool.not_eq_true _ ▸ hblank)
          omega
      · rw [itemsFrom_incomplete line hcut]
        exact Nat.succ_le_succ (Nat.zero_le _)
termination_by s.length
decreasing_by exact length_splitLine_lt

/-- A reader that is asked until its end gives what its journal holds. -/
theorem Reader.toList_new (s : Source) : (new s).toList.1 = s.items := by
  have hlength := Source.length_itemsFrom_le 0 s.failure s.bytes
  rw [← Source.items_eq, ← remaining_new] at hlength
  rw [toList, drain_eq_remaining (Nat.lt_succ_of_le ?_), remaining_new]
  exact hlength

/-- The failure of a source is the last thing its reader gives. -/
theorem Reader.getLast?_toList_new {s : Source} {e : LineError} (h : s.error? = some e) :
    (new s).toList.1.getLast? = some (.error e) := by
  rw [toList_new, Source.items, h, Option.map_some, Option.toList_some]
  exact List.getLast?_concat ..

end Lineage.Audit

import Lineage.Proofs.Audit.RecordText
import Lineage.Proofs.Json.Printer

/-!
# Objects and arrays that are written

`printObject` and `printArray` put nothing but commas between their parts (`joined`), so a reader
finds the parts one by one.  A fold over the members of an object goes through them in the order in
which they are written, as far as its step takes them (`Folds.foldMembers_eq`).
-/

namespace Lineage.Json

open Grammar
open Audit (Lead readKey?_none readKey?_some)

/-! ## Parts between commas -/

/-- The text of some parts with the closing byte behind them.  All but the first one stand behind a
comma. -/
def joined (closing : UInt8) (first : Bool) : List String → Bytes → Bytes
  | [], r => closing :: r
  | t :: ts, r => (if first then [] else [comma]) ++ (utf8 t ++ joined closing false ts r)

theorem utf8_intercalate (closing : UInt8) (ts : List String) (r : Bytes) :
    utf8 (",".intercalate ts) ++ closing :: r = joined closing true ts r := by
  cases ts with
  | nil => rfl
  | cons t ts =>
      induction ts generalizing t with
      | nil =>
          rw [String.intercalate_singleton]
          rfl
      | cons t' ts ih =>
          rw [String.intercalate_cons_cons, utf8_append, utf8_append,
            List.append_assoc, List.append_assoc, ih t']
          rfl

/-! ## Objects -/

/-- The text of a member. -/
def memberText (m : String × String) : String := printString m.1 ++ ":" ++ m.2

/-- The text of some members with the closing brace behind them. -/
def membersText (first : Bool) (ms : List (String × String)) (r : Bytes) : Bytes :=
  joined closeBrace first (ms.map memberText) r

/-- What stands behind a value in an object does not go on with a number. -/
theorem endsNumber_membersText (ms : List (String × String)) (r : Bytes) :
    EndsNumber (membersText false ms r) := by
  cases ms with
  | nil =>
      rw [membersText, List.map_nil, joined]
      exact endsNumber_closing .object r
  | cons m ms =>
      rw [membersText, List.map_cons, joined]
      exact endsNumber_comma _

theorem utf8_printObject (ms : List (String × String)) (r : Bytes) :
    utf8 (printObject ms) ++ r = openBrace :: membersText true ms r := by
  rw [membersText, ← utf8_intercalate, printObject, utf8_append, utf8_append, List.append_assoc,
    List.append_assoc]
  rfl

/-- A step takes some members, one after the other. -/
inductive Folds {σ : Type} (step : MemberStep σ) : σ → List (String × String) → σ → Prop
  | nil (st : σ) : Folds step st [] st
  | cons {st st' st'' : σ} {key text : String} {ms : List (String × String)} :
    (∀ r, EndsNumber r → step.run st key (colon :: (utf8 text ++ r)) = .ok (st', r)) →
      Folds step st' ms st'' → Folds step st ((key, text) :: ms) st''

variable {σ : Type} {step : MemberStep σ} {st st' : σ}

/-- The member at the front is read by the step. -/
theorem foldMembers_cons (first : Bool) (key text : String) (ms : List (String × String))
    (r : Bytes) :
    foldMembers step st first (membersText first ((key, text) :: ms) r) =
      match step.run st key (colon :: (utf8 text ++ membersText false ms r)) with
      | .error f => .error f
      | .ok (st', r') => foldMembers step st' false r' := by
  have htext : utf8 (memberText (key, text)) ++ membersText false ms r =
      utf8 (printString key) ++ colon :: (utf8 text ++ membersText false ms r) := by
    rw [memberText, utf8_append, utf8_append, List.append_assoc, List.append_assoc]
    rfl
  have hkey : readKey? first (membersText first ((key, text) :: ms) r) =
      .ok (some key, colon :: (utf8 text ++ membersText false ms r)) := by
    refine readKey?_some.mpr ⟨_, _, ?_, .done _, text_printString key _⟩
    rw [← htext, membersText, List.map_cons, joined, ← membersText]
    cases first with
    | true =>
        rw [if_pos rfl, List.nil_append]
        exact .first _
    | false =>
        rw [if_neg Bool.false_ne_true, List.singleton_append]
        exact .next (.done _)
  rw [foldMembers, hkey]
  dsimp only
  split <;> rename_i h <;> rw [h]

/-- Members that the step takes are read, and those behind them are left. -/
theorem Folds.foldMembers_eq {ms : List (String × String)} (h : Folds step st ms st')
    (first : Bool) (rest : List (String × String)) (r : Bytes) :
    foldMembers step st first (membersText first (ms ++ rest) r) =
      foldMembers step st' (first && ms.isEmpty) (membersText (first && ms.isEmpty) rest r) := by
  induction h generalizing first with
  | nil st => simp only [List.nil_append, List.isEmpty_nil, Bool.and_true]
  | cons hrun _ ih =>
      rw [List.cons_append, foldMembers_cons, hrun _ (endsNumber_membersText _ r)]
      dsimp only
      rw [ih, Bool.false_and, List.isEmpty_cons, Bool.and_false]

/-- All members of an object are taken. -/
theorem Folds.foldMembers_ok {ms : List (String × String)} (h : Folds step st ms st') (r : Bytes) :
    foldMembers step st true (membersText true ms r) = .ok (st', r) := by
  have hfold := h.foldMembers_eq true [] r
  rw [List.append_nil] at hfold
  rw [hfold, membersText, List.map_nil, joined, foldMembers, readKey?_none.mpr (.done _)]

/-- A member that the step refuses is refused behind members that it takes. -/
theorem Folds.foldMembers_error {ms rest : List (String × String)} {key text : String} {f : Fault}
    {r : Bytes} (h : Folds step st ms st')
    (hrun : step.run st' key (colon :: (utf8 text ++ membersText false rest r)) = .error f) :
    foldMembers step st true (membersText true (ms ++ (key, text) :: rest) r) = .error f := by
  rw [h.foldMembers_eq, foldMembers_cons, hrun]

/-! ## Arrays -/

/-- The text of some elements with the closing bracket behind them. -/
def elementsText (first : Bool) (ts : List String) (r : Bytes) : Bytes :=
  joined closeBracket first ts r

theorem utf8_printArray (ts : List String) (r : Bytes) :
    utf8 (printArray ts) ++ r = openBracket :: elementsText true ts r := by
  rw [elementsText, ← utf8_intercalate, printArray, utf8_append, utf8_append, List.append_assoc,
    List.append_assoc]
  rfl

/-- An element that begins with neither a blank nor the closing bracket is found. -/
theorem moreElements_cons (first : Bool) {t : String} {ts : List String} {r u : Bytes} {b : UInt8}
    (ht : utf8 t ++ elementsText false ts r = b :: u) (hblank : isBlank b = false)
    (hb : b ≠ closeBracket) :
    moreElements first (elementsText first (t :: ts) r) =
      .ok (true, utf8 t ++ elementsText false ts r) := by
  have hskip := skipBlanks_cons hblank u
  have hcomma : skipBlanks (comma :: b :: u) = comma :: b :: u := skipBlanks_cons rfl _
  have hne : comma ≠ closeBracket := by decide
  rw [elementsText] at ht
  cases first with
  | true =>
      simp only [elementsText, joined, if_true, List.nil_append, ht, moreElements, hskip, if_neg hb]
  | false =>
      simp only [elementsText, joined, Bool.false_eq_true, if_false,
        List.singleton_append, ht, moreElements, hcomma, hskip, if_neg hb, if_neg hne, if_true]

theorem moreElements_nil (first : Bool) (r : Bytes) :
    moreElements first (elementsText first [] r) = .ok (false, closeBracket :: r) := by
  have hskip : skipBlanks (closeBracket :: r) = closeBracket :: r := skipBlanks_cons rfl r
  simp only [elementsText, joined, moreElements, hskip, if_true]

theorem endElements_close (r : Bytes) : endElements (closeBracket :: r) = .ok r := by
  have hskip : skipBlanks (closeBracket :: r) = closeBracket :: r := skipBlanks_cons rfl r
  simp only [endElements, hskip, if_true]

end Lineage.Json

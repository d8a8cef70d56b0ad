import Lineage.Proofs.Audit.RoundTrip
import Lineage.Proofs.Json.Locality

/-!
# Documents behind each other

A record ends with its closing brace, whatever stands behind it (`local_recordText`).  So a document
is read from the left to the right, one record at a time.  A document of complete records in front
of a text only adds its events (`readEvents_append`), and the first record that lacks a field
decides, whatever follows it (`readEvents_append_incomplete`).
-/

namespace Lineage.Audit

open Lineage.Json
open Lineage.Json.Grammar

/-- Errors of the same kind: the same fields are missing, or the same cause, and with it the same
category, is found at places of their own. -/
inductive RecordError.Alike : RecordError → RecordError → Prop
  | missing (missing : FieldSet) : Alike (.missingFields missing) (.missingFields missing)
  | malformed (cause : Cause) (place place' : Position) :
    Alike (.malformed cause place) (.malformed cause place')

/-! ## Records end by themselves -/

theorem local_literal {t : FieldType} (v : t.Value) : Local (Literal t · v ·) := by
  intro s r h
  cases h with
  | text htext => exact (local_text _ htext).imp .text
  | word32 hinteger hlow hhigh hv => exact (local_integer _ hinteger).imp (.word32 · hlow hhigh hv)
  | word64 hinteger hlow hhigh hv => exact (local_integer _ hinteger).imp (.word64 · hlow hhigh hv)

theorem local_memberValue (m : Member) : Local (MemberValue · m ·) := by
  intro s r h
  cases h with
  | known hblanks hliteral =>
      exact ((local_blanks hblanks).comp (local_literal _ hliteral)).imp
        fun ⟨_, h₁, h₂⟩ => .known h₁ h₂
  | other hblanks hvalue =>
      exact ((local_blanks hblanks).comp (local_derives _ hvalue)).imp
        fun ⟨_, h₁, h₂⟩ => .other h₁ h₂

theorem local_memberText (m : Member) : Local (MemberText · m ·) := by
  rintro s r ⟨hblanks, htext, hcolon, hvalue⟩
  have hparts := (local_blanks hblanks).comp
    ((local_text _ htext).comp ((local_blanks hcolon).byte.comp (local_memberValue m hvalue)))
  exact hparts.imp fun ⟨_, h₁, _, h₂, _, h₃, h₄⟩ => .mk h₁ h₂ h₃ h₄

theorem local_membersText (ms : List Member) : Local (MembersText · ms ·) := by
  intro s r h
  induction h with
  | last hmember hclose =>
      exact ((local_memberText _ hmember).comp (local_blanks hclose).byte).imp
        fun ⟨_, h₁, h₂⟩ => .last h₁ h₂
  | more hmember hcomma _ ih =>
      exact ((local_memberText _ hmember).comp ((local_blanks hcomma).byte.comp ih)).imp
        fun ⟨_, h₁, _, h₂, h₃⟩ => .more h₁ h₂ h₃

theorem local_recordText (ms : List Member) : Local (RecordText · ms ·) := by
  intro s r h
  cases h with
  | empty hclose => exact (local_blanks hclose).byte.cons .empty
  | filled hmembers => exact (local_membersText ms hmembers).cons .filled

/-! ## Reading on -/

/-- A record is read in the same way in front of more text. -/
theorem readRecord_append {s r : Bytes} {es : List Entry} (h : readRecord s = .ok (es, r))
    (x : Bytes) :
    readRecord (s ++ x) = .ok (es, r ++ x) := by
  obtain ⟨ms, s₁, hblanks, hrecord, rfl⟩ := text_of_readRecord h
  exact readRecord_of_text (local_blanks.append hblanks x) ((local_recordText ms).append hrecord x)

/-- The first record decides, or it adds its event to those of the rest. -/
theorem readEvents_of_readRecord {s r : Bytes} {es : List Entry} (h : readRecord s = .ok (es, r)) :
    readEvents s =
      match Event.ofEntries? es with
      | .error missing => .error (.incomplete missing)
      | .ok event => (readEvents r).map (event :: ·) := by
  obtain ⟨ms, s₁, hblanks, hrecord, rfl⟩ := text_of_readRecord h
  exact readEvents_record hblanks hrecord

theorem readRecord_of_brace {s r : Bytes} (h : Blanks s (openBrace :: r)) :
    readRecord s = (foldMembers entryStep [] true r).map fun found =>
      (found.1.reverse, found.2) := by
  simp only [readRecord, h.skipBlanks_cons rfl, if_true]
  cases foldMembers entryStep [] true r <;> rfl

/-- A text is refused for the fault of its first record. -/
theorem readEvents_of_fault {s r : Bytes} {b : UInt8} {f : Fault} (hblanks : Blanks s (b :: r))
    (hb : isBlank b = false) (h : readRecord (b :: r) = .error f) :
    readEvents s = .error (.fault f) := by
  rw [readEvents, hblanks.skipBlanks_cons hb]
  dsimp only
  rw [h]

theorem readLine_of_fault {s : Bytes} {f : Fault} (h : readEvents s = .error (.fault f))
    (line : Nat) :
    readLine line s = .error ⟨line, .record (.malformed f.cause (f.position s))⟩ := by
  rw [readLine, readDocument, h]
  rfl

theorem readEvents_blanks {s r : Bytes} (h : Blanks s r) : readEvents s = readEvents r := by
  rw [readEvents, readEvents, h.skipBlanks_eq]

/-- Complete records in front of a text add their events to those of the text. -/
theorem readEvents_append {s : Bytes} {es : List Event} (h : readEvents s = .ok es) (x : Bytes) :
    readEvents (s ++ x) = (readEvents x).map (es ++ ·) := by
  fun_induction readEvents s generalizing es with
  | case1 s hs =>
      cases h
      have hblanks := local_blanks.append (blanks_of_skipBlanks hs) x
      rw [readEvents_blanks hblanks, List.nil_append]
      cases readEvents x <;> rfl
  | case2 => cases h
  | case3 => cases h
  | case4 => cases h
  | case5 s b u hs entries r hread event hevent events htail ih =>
      cases h
      have hblanks := local_blanks.append (blanks_of_skipBlanks hs) x
      rw [readEvents_blanks hblanks, readEvents_of_readRecord (readRecord_append hread x), hevent]
      dsimp only
      rw [ih htail]
      cases readEvents x <;> rfl

/-- The first record that lacks a field decides, whatever stands behind it. -/
theorem readEvents_append_incomplete {s : Bytes} {missing : FieldSet}
    (h : readEvents s = .error (.incomplete missing)) (x : Bytes) :
    readEvents (s ++ x) = .error (.incomplete missing) := by
  fun_induction readEvents s with
  | case1 => cases h
  | case2 => cases h
  | case3 s b u hs entries r hread missing' hmissing =>
      cases h
      have hblanks := local_blanks.append (blanks_of_skipBlanks hs) x
      rw [readEvents_blanks hblanks, readEvents_of_readRecord (readRecord_append hread x), hmissing]
  | case4 s b u hs entries r hread event hevent stop htail ih =>
      cases h
      have hblanks := local_blanks.append (blanks_of_skipBlanks hs) x
      rw [readEvents_blanks hblanks, readEvents_of_readRecord (readRecord_append hread x), hevent]
      dsimp only
      rw [ih htail]
      rfl
  | case5 => cases h

/-! ## The law of documents -/

theorem readDocument_ok_iff {s : Bytes} {es : List Event} :
    readDocument s = .ok es ↔ readEvents s = .ok es := by
  rw [readDocument]
  cases readEvents s with
  | ok es' => exact ⟨fun h => (by cases h; rfl), fun h => (by cases h; rfl)⟩
  | error stop => exact ⟨fun h => (by cases h), fun h => (by cases h)⟩

theorem readDocument_error_iff {s : Bytes} {e : RecordError} :
    readDocument s = .error e ↔ ∃ stop, readEvents s = .error stop ∧ stop.locate s = e := by
  rw [readDocument]
  cases readEvents s with
  | ok es =>
      constructor
      · intro h
        cases h
      · rintro ⟨_, h, _⟩
        cases h
  | error stop =>
      constructor
      · intro h
        cases h
        exact ⟨stop, rfl, rfl⟩
      · rintro ⟨_, h, rfl⟩
        cases h
        rfl

theorem Stop.locate_eq_missingFields_iff {stop : Stop} {s : Bytes} {missing : FieldSet} :
    stop.locate s = .missingFields missing ↔ stop = .incomplete missing := by
  cases stop with
  | incomplete missing' => exact ⟨fun h => (by cases h; rfl), fun h => (by cases h; rfl)⟩
  | fault f => exact ⟨fun h => (by cases h), fun h => (by cases h)⟩

/-- Wherever reading stops, the kind of the error does not depend on what stands in front. -/
theorem Stop.alike_locate (stop : Stop) (s s' : Bytes) :
    (stop.locate s).Alike (stop.locate s') := by
  cases stop with
  | incomplete missing => exact .missing missing
  | fault f => exact .malformed f.cause _ _

/-- A document of complete records in front of a text adds its events to those of the text, and
leaves the kind of its error as it is.  A document with an incomplete record is refused for it,
whatever stands behind. -/
theorem readDocument_append (s x : Bytes) :
    (∀ es, readDocument s = .ok es →
      (∀ es', readDocument x = .ok es' → readDocument (s ++ x) = .ok (es ++ es')) ∧
      ∀ e, readDocument x = .error e →
        ∃ e', readDocument (s ++ x) = .error e' ∧ e.Alike e') ∧
    ∀ missing, readDocument s = .error (.missingFields missing) →
      readDocument (s ++ x) = .error (.missingFields missing) := by
  refine ⟨fun es hs => ?_, fun missing hs => ?_⟩
  · have happend := readEvents_append (readDocument_ok_iff.mp hs) x
    constructor
    · intro es' hx
      rw [readDocument_ok_iff.mp hx] at happend
      exact readDocument_ok_iff.mpr happend
    · intro e hx
      obtain ⟨stop, hstop, rfl⟩ := readDocument_error_iff.mp hx
      rw [hstop] at happend
      exact ⟨stop.locate (s ++ x), readDocument_error_iff.mpr ⟨stop, happend, rfl⟩,
        stop.alike_locate x _⟩
  · obtain ⟨stop, hstop, hlocate⟩ := readDocument_error_iff.mp hs
    rw [Stop.locate_eq_missingFields_iff] at hlocate
    subst hlocate
    exact readDocument_error_iff.mpr ⟨_, readEvents_append_incomplete hstop x, rfl⟩

/-- A record in front of another one, in front of a record that is cut short, and behind an empty
object. -/
theorem readDocument_append_cut :
    let e : Event := { event := "audit:event:aue_exit:", time := 1, pid := 2 }
    let text := utf8 e.print
    readDocument (text ++ text) = .ok [e, e] ∧
      (∃ e', readDocument (text ++ [openBrace]) = .error e' ∧
        RecordError.Alike (.malformed .endOfObject ⟨1, 1⟩) e') ∧
      readDocument ([openBrace, closeBrace] ++ text) = .error (.missingFields .required) := by
  intro e text
  have htext : readDocument text = .ok [e] := by
    have hjoined : Joined [e] (utf8 e.print ++ []) := .more (.done _) (.done (.done []))
    rw [List.append_nil] at hjoined
    exact readDocument_joined hjoined
  have hcut : readDocument [openBrace] = .error (.malformed .endOfObject ⟨1, 1⟩) := by
    have hfold : foldMembers entryStep [] true [] = .error (.next .endOfObject []) := by
      rw [foldMembers]
      rfl
    have hrecord : readRecord [openBrace] = .error (.next .endOfObject []) := by
      rw [readRecord_of_brace (.done _), hfold]
      rfl
    exact readDocument_error_iff.mpr ⟨_, readEvents_of_fault (.done _) rfl hrecord, rfl⟩
  have hempty : readDocument [openBrace, closeBrace] = .error (.missingFields .required) := by
    have hevents := readEvents_record (.done _) (.empty (.done [closeBrace]))
    exact readDocument_error_iff.mpr ⟨_, hevents, rfl⟩
  exact ⟨((readDocument_append text text).1 [e] htext).1 [e] htext,
    ((readDocument_append text [openBrace]).1 [e] htext).2 _ hcut,
    (readDocument_append [openBrace, closeBrace] text).2 _ hempty⟩

end Lineage.Audit

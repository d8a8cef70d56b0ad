import Lineage.Proofs.Audit.Surroundings
import Lineage.Proofs.Audit.Truncation
import Lineage.Proofs.Json.SkippedStrings

/-!
# The encoding of lines

Keys and the texts of known fields are decoded, so a line in which one of them is not UTF-8 is
refused.  The value of an unknown key is only skipped, and so are the strings in it.  A line that is
read is UTF-8 if and only if their insides are (`readLine_utf8`), and it is read whether they are or
not (`readLine_skips_invalid_utf8`).
-/

namespace Lineage.Audit

open Lineage.Json
open Lineage.Json.Grammar

/-- Behind the opening brace of a record, a string with the inside `t` is skipped in the value of a
key that no field has. -/
inductive SkippedBehind (t : Bytes) : Bytes → Prop
  | mk {before : List Member} {key : String} {s s₁ s₂ s₃ : Bytes} :
    FrontText s before s₁ → KeyText key s₁ s₂ →
    (∀ f : Field, f.key ≠ key) → Blanks s₂ s₃ →
      Holds t .value s₃ → SkippedBehind t s

/-- In a record of a line, a string with the inside `t` is skipped. -/
inductive SkippedIn (t : Bytes) : Bytes → Prop
  | mk {before s : Bytes} : IsDocument before → SkippedBehind t s →
    SkippedIn t (before ++ openBrace :: s)

/-! ## Where the strings are -/

theorem KeyText.isSuffix {key : String} {s r : Bytes} (h : KeyText key s r) : r <:+ s := by
  cases h with
  | mk hblanks htext hcolon =>
      exact (local_blanks hcolon).byte.isSuffix.trans
        ((local_text _ htext).isSuffix.trans (local_blanks hblanks).isSuffix)

theorem FrontText.isSuffix {before : List Member} {s r : Bytes} (h : FrontText s before r) :
    r <:+ s := by
  induction h with
  | done s => exact List.suffix_rfl
  | more hmember hcomma _ ih =>
      exact ih.trans ((local_blanks hcomma).byte.isSuffix.trans
        (local_memberText _ hmember).isSuffix)

/-- A line is UTF-8 only if its skipped strings are. -/
theorem SkippedIn.isUtf8 {t s : Bytes} (h : SkippedIn t s) (hs : IsUtf8 s) : IsUtf8 t := by
  cases h with
  | @mk before s hbefore hbehind =>
      cases hbehind with
      | mk hfront hkey _ hblanks hholds =>
          obtain ⟨r, hr⟩ := hholds.exists_isSuffix
          have hbrace : s <:+ before ++ openBrace :: s :=
            (List.suffix_cons openBrace s).trans (List.suffix_append before _)
          obtain ⟨u, hu⟩ :=
            (((hr.trans (local_blanks hblanks).isSuffix).trans hkey.isSuffix).trans
              hfront.isSuffix).trans hbrace
          rw [← hu, isUtf8_append_cons_iff (by decide)] at hs
          exact ((isUtf8_append_cons_iff (by decide)).mp hs.2).1

/-! ## What is UTF-8 -/

theorem Literal.utf8To {t : FieldType} {v : t.Value} {s r : Bytes} (h : Literal t s v r) :
    Utf8To s r := by
  cases h with
  | text htext => exact utf8To_text htext
  | word32 hinteger => exact utf8To_numeral hinteger.numeral
  | word64 hinteger => exact utf8To_numeral hinteger.numeral

/-- A member is UTF-8 if the strings are that are skipped in it. -/
theorem MemberText.utf8To {m : Member} {s r : Bytes} (h : MemberText s m r)
    (hskipped : ∀ t, SkippedBehind t s → IsUtf8 t) : Utf8To s r := by
  cases h with
  | mk hblanks htext hcolon hvalue =>
      have hkey := ((utf8To_blanks hblanks).trans (utf8To_text htext)).trans
        ((utf8To_blanks hcolon).byte (by decide))
      refine hkey.trans ?_
      cases hvalue with
      | known hblanks' hliteral => exact (utf8To_blanks hblanks').trans hliteral.utf8To
      | @other key unknown _ _ _ hblanks' hvalue =>
          refine (utf8To_blanks hblanks').trans (hvalue.utf8To fun t ht => hskipped t ?_)
          exact .mk (.done s) (.mk hblanks htext hcolon) unknown hblanks' ht

theorem MembersText.utf8To {ms : List Member} {s r : Bytes} (h : MembersText s ms r)
    (hskipped : ∀ t, SkippedBehind t s → IsUtf8 t) : Utf8To s r := by
  induction h with
  | last hmember hclose =>
      exact (hmember.utf8To hskipped).trans ((utf8To_blanks hclose).byte (by decide))
  | @more m ms s s₁ s₂ r hmember hcomma _ ih =>
      have hrest : ∀ t, SkippedBehind t s₂ → IsUtf8 t := by
        rintro t ⟨hfront, hkey, unknown, hblanks, hholds⟩
        exact hskipped t (.mk (.more hmember hcomma hfront) hkey unknown hblanks hholds)
      exact ((hmember.utf8To hskipped).trans ((utf8To_blanks hcomma).byte (by decide))).trans
        (ih hrest)

theorem RecordText.utf8To {ms : List Member} {s r : Bytes} (h : RecordText s ms r)
    (hskipped : ∀ t, SkippedIn t s → IsUtf8 t) : Utf8To s r := by
  have hbehind : ∀ {u : Bytes}, s = openBrace :: u → ∀ t, SkippedBehind t u → IsUtf8 t := by
    rintro u rfl t ht
    exact hskipped t (.mk ⟨[], .done (.done [])⟩ ht)
  cases h with
  | empty hclose => exact ((utf8To_blanks hclose).byte (by decide)).cons (by decide)
  | filled hmembers => exact (hmembers.utf8To (hbehind rfl)).cons (by decide)

/-! ## Lines of records -/

/-- What is skipped in a text is skipped behind blanks or records too. -/
theorem SkippedIn.append {t s front : Bytes}
    (hfront : ∀ d, IsDocument d → IsDocument (front ++ d)) (h : SkippedIn t s) :
    SkippedIn t (front ++ s) := by
  cases h with
  | @mk before s hbefore hbehind =>
      rw [← List.append_assoc]
      exact .mk (hfront before hbefore) hbehind

/-- A line of records is UTF-8 if the strings are that are skipped in it. -/
theorem DocumentText.utf8To {s : Bytes} {records : List (List Member)} (h : DocumentText s records)
    (hskipped : ∀ t, SkippedIn t s → IsUtf8 t) : Utf8To s [] := by
  induction h with
  | done hblanks => exact utf8To_blanks hblanks
  | @more ms records s s₁ r hblanks hrecord _ ih =>
      obtain ⟨b, rfl, hb⟩ := local_blanks hblanks
      obtain ⟨o, rfl, ho⟩ := local_recordText ms hrecord
      have hrecords : ∀ t, SkippedIn t (o ++ r) → IsUtf8 t :=
        fun t ht => hskipped t (ht.append fun d => IsDocument.blanks_append hb)
      have hrest : ∀ t, SkippedIn t r → IsUtf8 t :=
        fun t ht => hrecords t (ht.append fun d => IsDocument.record_append ho)
      exact (utf8To_blanks hblanks).trans ((hrecord.utf8To hrecords).trans (ih hrest))

/-- A line that is no text of complete records is refused.  Any other line is read, and it is UTF-8
if and only if all strings are that are skipped in it. -/
theorem readLine_utf8 (line : Nat) (s : Bytes) :
    (∃ error, readLine line s = .error ⟨line, .record error⟩) ∧
        (¬ ∃ records, DocumentText s records ∧ ∀ ms ∈ records, Complete ms) ∨
      (∃ es, readLine line s = .ok es) ∧ (IsUtf8 s ↔ ∀ t, SkippedIn t s → IsUtf8 t) := by
  rw [readLine]
  cases hread : readDocument s with
  | error error =>
      refine .inl ⟨⟨error, rfl⟩, ?_⟩
      rintro ⟨records, hdocument, hcomplete⟩
      obtain ⟨es, hes⟩ := (exists_events_iff records).mpr hcomplete
      have hok := readDocument_ok_iff.mpr (readEvents_eq_ok_iff.mpr ⟨records, hdocument, hes⟩)
      rw [hread] at hok
      cases hok
  | ok es =>
      obtain ⟨records, hdocument, -⟩ := text_of_readEvents (readDocument_ok_iff.mp hread)
      refine .inr ⟨⟨es, rfl⟩, fun hs t ht => ht.isUtf8 hs, fun hskipped => ?_⟩
      exact (hdocument.utf8To hskipped).isUtf8

/-- The record of an event with one more member in front, whose value is a string with a byte that
no character begins with.  It is read as if the member was not there. -/
theorem readLine_skips_invalid_utf8 :
    let e : Event := { event := "audit:event:aue_exit:", time := 1, pid := 2 }
    let s := openBrace :: (utf8 (printString "x") ++ colon :: quote :: ([0xff] ++ quote :: comma ::
      (utf8 e.print).tail))
    ¬ IsUtf8 s ∧ readLine 1 s = .ok [e] := by
  intro e s
  have unknown : ∀ f : Field, f.key ≠ "x" := unknown_of_ofKey? rfl
  have hvalue : ∀ r : Bytes, Skipped ([0xff] ++ quote :: r) r :=
    fun r => .plain ⟨by decide, by decide, by decide⟩ (.close r)
  constructor
  · intro hs
    have hskipped : SkippedIn [0xff] s :=
      .mk ⟨[], .done (.done [])⟩
        (.mk (.done _) (keyText_print "x" _) unknown (.done _) (.text (hvalue _)))
    exact absurd (hskipped.isUtf8 hs).isUTF8FirstByte (by decide)
  · have hrecord := recordText_print e []
    rw [List.append_nil] at hrecord
    obtain ⟨u, hu⟩ := hrecord.exists_eq
    rw [hu] at hrecord
    cases hrecord with
    | filled hmembers =>
        have hmember : MemberText _ (.other "x" unknown) (comma :: u) :=
          KeyText.memberText (keyText_print "x" _) (.other (.done _) (.text (hvalue _)))
        have htail : (utf8 e.print).tail = u := congrArg List.tail hu
        have hall : RecordText s (.other "x" unknown :: e.entries.map .known) [] := by
          simp only [s, htail]
          exact .filled (.more hmember (.done _) hmembers)
        rw [readLine_eq_ok_iff, readEvents_record (.done s) hall, entries_other, entries_map_known,
          Event.ofEntries?_entries]
        dsimp only
        rw [readEvents_blank (.done [])]
        rfl

end Lineage.Audit

import Lineage.Proofs.Audit.Concatenation

/-!
# Lines that are cut short

A line of complete records that is cut somewhere never gives an event that it did not give before.
Where the cut is between its records, the part in front of it is a line of the first of them
(`DocumentText.cut`).  Where it is inside a record (`EndsInside`), that part is refused as malformed
(`EndsInside.readEvents_fault`).  It is not reported as lacking a field, because no record is
complete before its closing brace.
-/

namespace Lineage.Audit

open Lineage.Json
open Lineage.Json.Grammar

/-- A text of records, with blanks around them and nothing else. -/
def IsDocument (s : Bytes) : Prop := ∃ records, DocumentText s records

/-- A text of one record, from its opening brace to its closing one. -/
def IsRecord (s : Bytes) : Prop := ∃ ms, RecordText s ms []

/-- The front `p` of a text ends inside one of its records. -/
def EndsInside (p s : Bytes) : Prop :=
  ∃ before record after, s = before ++ record ++ after ∧
    IsDocument before ∧ IsRecord record ∧
    before.length < p.length ∧ p.length < before.length + record.length

/-! ## Documents behind blanks and records -/

section

variable {front d : Bytes}

theorem IsDocument.blanks_append (hfront : ∀ x, Blanks (front ++ x) x) (h : IsDocument d) :
    IsDocument (front ++ d) := by
  obtain ⟨records, hdocument⟩ := h
  refine ⟨records, ?_⟩
  cases hdocument with
  | done hblanks => exact .done ((hfront d).trans hblanks)
  | more hblanks hrecord hrest => exact .more ((hfront d).trans hblanks) hrecord hrest

theorem IsDocument.record_append {ms : List Member} (hfront : ∀ x, RecordText (front ++ x) ms x)
    (h : IsDocument d) : IsDocument (front ++ d) := by
  obtain ⟨records, hdocument⟩ := h
  exact ⟨ms :: records, .more (.done _) (hfront d) hdocument⟩

end

/-! ## Cuts between records -/

/-- Blanks and records in front of a text move the cut along with it. -/
theorem EndsInside.append {p s front : Bytes}
    (hfront : ∀ d, IsDocument d → IsDocument (front ++ d)) (h : EndsInside p s) :
    EndsInside (front ++ p) (front ++ s) := by
  obtain ⟨before, record, after, rfl, hbefore, hrecord, hlow, hhigh⟩ := h
  refine ⟨front ++ before, record, after, by simp only [List.append_assoc],
    hfront before hbefore, hrecord, ?_, ?_⟩
  all_goals
    rw [List.length_append, List.length_append]
    omega

/-- The front of a document is a document of its first records, or it ends inside a record. -/
theorem DocumentText.cut {s p : Bytes} {records : List (List Member)} (h : DocumentText s records)
    (hp : p <+: s) :
    (∃ first, first <+: records ∧ DocumentText p first) ∨ EndsInside p s := by
  induction h generalizing p with
  | done hblanks => exact .inl ⟨[], List.nil_prefix, .done (hblanks.of_isPrefix hp)⟩
  | @more ms records s s₁ r hblanks hrecord _ ih =>
      obtain ⟨b, rfl, hb⟩ := local_blanks hblanks
      obtain ⟨o, rfl, ho⟩ := local_recordText ms hrecord
      have hblank : Blanks b [] := List.append_nil b ▸ hb []
      have hwhole : RecordText o ms [] := List.append_nil o ▸ ho []
      rw [← List.append_assoc] at hp ⊢
      rcases Nat.lt_or_ge b.length p.length with hlow | hlow
      · rcases Nat.lt_or_ge p.length (b ++ o).length with hhigh | hhigh
        · rw [List.length_append] at hhigh
          exact .inr ⟨b, o, r, rfl, ⟨[], .done hblank⟩, ⟨ms, hwhole⟩, hlow, hhigh⟩
        · -- The record is in front of the cut.
          obtain ⟨p', rfl⟩ := List.prefix_of_prefix_length_le (List.prefix_append _ r) hp hhigh
          have hfront : ∀ d, IsDocument d → IsDocument (b ++ o ++ d) := by
            intro d hd
            rw [List.append_assoc]
            exact (hd.record_append ho).blanks_append hb
          rcases ih ((List.prefix_append_right_inj _).mp hp) with
            ⟨first, hfirst, hdocument⟩ | hinside
          · refine .inl ⟨ms :: first, (List.prefix_cons_inj ms).mpr hfirst, ?_⟩
            rw [List.append_assoc]
            exact .more (hb (o ++ p')) (ho p') hdocument
          · exact .inr (hinside.append hfront)
      · -- The cut is in the blanks, or just behind them.
        have hb' : b <+: b ++ o ++ r := ⟨o ++ r, (List.append_assoc b o r).symm⟩
        have hprefix := List.prefix_of_prefix_length_le hp hb' hlow
        exact .inl ⟨[], List.nil_prefix, .done (hblank.of_isPrefix hprefix)⟩

/-! ## Cuts inside a record -/

/-- A record that is cut short is not read, because its closing brace is missing. -/
theorem exists_fault_of_isPrefix {record p : Bytes} (h : IsRecord record) (hp : p <+: record)
    (hne : p ≠ record) : ∃ f, readRecord p = .error f := by
  obtain ⟨ms, hrecord⟩ := h
  obtain ⟨q, rfl⟩ := hp
  cases hread : readRecord p with
  | error f => exact ⟨f, rfl⟩
  | ok found =>
      have hwhole := readRecord_of_text (.done _) hrecord
      rw [readRecord_append hread q] at hwhole
      have hnil : found.2 ++ q = [] := congrArg Prod.snd (Except.ok.inj hwhole)
      rw [(List.append_eq_nil_iff.mp hnil).2, List.append_nil] at hne
      exact absurd rfl hne

/-- The events of records in front of a text that is read are there to be read. -/
theorem IsDocument.exists_readEvents {s x : Bytes} {es : List Event} (h : IsDocument s)
    (hes : readEvents (s ++ x) = .ok es) : ∃ es', readEvents s = .ok es' := by
  obtain ⟨records, hdocument⟩ := h
  have hread := readEvents_document hdocument
  cases hresult : (records.map fun ms => Event.ofEntries? (entries ms)).mapM id with
  | ok es' => exact ⟨es', hread.trans (by rw [hresult]; rfl)⟩
  | error missing =>
      rw [hresult] at hread
      rw [readEvents_append_incomplete hread x] at hes
      cases hes

/-- The front of a text that ends inside a record is malformed. -/
theorem EndsInside.readEvents_fault {s p : Bytes} {es : List Event} (h : EndsInside p s)
    (hp : p <+: s) (hes : readEvents s = .ok es) : ∃ f, readEvents p = .error (.fault f) := by
  obtain ⟨before, record, after, rfl, hbefore, hrecord, hlow, hhigh⟩ := h
  rw [← List.length_append] at hhigh
  have hinside :=
    List.prefix_of_prefix_length_le hp (List.prefix_append _ after) (Nat.le_of_lt hhigh)
  obtain ⟨p', rfl⟩ := List.prefix_of_prefix_length_le (List.prefix_append before record) hinside
    (Nat.le_of_lt hlow)
  have hcut : p' <+: record := (List.prefix_append_right_inj before).mp hinside
  have hne : p' ≠ record := by
    rintro rfl
    exact absurd hhigh (Nat.lt_irrefl _)
  obtain ⟨f, hf⟩ := exists_fault_of_isPrefix hrecord hcut hne
  obtain ⟨es', hes'⟩ : ∃ es', readEvents before = .ok es' := by
    rw [List.append_assoc] at hes
    exact hbefore.exists_readEvents hes
  refine ⟨f, ?_⟩
  rw [readEvents_append hes' p']
  obtain ⟨b, u, rfl⟩ : ∃ b u, p' = b :: u := List.exists_cons_of_length_pos (by
    rw [List.length_append] at hlow
    omega)
  obtain ⟨ms, hms⟩ := hrecord
  obtain ⟨v, rfl⟩ := hms.exists_eq
  obtain ⟨rfl, -⟩ := List.cons_prefix_cons.mp hcut
  rw [readEvents_of_fault (.done _) rfl hf]
  rfl

/-! ## The law of cuts -/

/-- The front of a line that is read gives the first events of the line, or it ends inside a record
and is malformed. -/
theorem readLine_prefix {line : Nat} {s p : Bytes} {es : List Event} (h : readLine line s = .ok es)
    (hp : p <+: s) :
    (¬ EndsInside p s ∧ ∃ first, first <+: es ∧ readLine line p = .ok first) ∨
      (EndsInside p s ∧
        ∃ cause place,
          readLine line p = .error ⟨line, .record (.malformed cause place)⟩) := by
  rw [readLine_eq_ok_iff] at h
  by_cases hinside : EndsInside p s
  · obtain ⟨f, hf⟩ := hinside.readEvents_fault hp h
    exact .inr ⟨hinside, _, _, readLine_of_fault hf line⟩
  · obtain ⟨records, hdocument, hevents⟩ := text_of_readEvents h
    obtain ⟨first, ⟨others, rfl⟩, hfirst⟩ := (hdocument.cut hp).resolve_right hinside
    rw [List.map_append] at hevents
    obtain ⟨es₁, es₂, rfl, hes₁, -⟩ := List.append_eq_map_iff.mp hevents
    refine .inl ⟨hinside, es₁, List.prefix_append es₁ es₂, ?_⟩
    exact readLine_eq_ok_iff.mpr (readEvents_eq_ok_iff.mpr ⟨first, hfirst, hes₁.symm⟩)

/-- Two records, of which the second is cut behind its opening brace. -/
theorem readLine_prefix_brace :
    let e : Event := { event := "audit:event:aue_exit:", time := 1, pid := 2 }
    let s := utf8 e.print ++ utf8 e.print
    let p := utf8 e.print ++ [openBrace]
    readLine 1 s = .ok [e, e] ∧ p <+: s ∧
      ((¬ EndsInside p s ∧ ∃ first, first <+: [e, e] ∧ readLine 1 p = .ok first) ∨
        (EndsInside p s ∧
          ∃ cause place, readLine 1 p = .error ⟨1, .record (.malformed cause place)⟩)) := by
  intro e s p
  have hread : readLine 1 s = .ok [e, e] := by
    have hjoined : Joined [e, e] (utf8 e.print ++ (utf8 e.print ++ [])) :=
      .more (.done _) (.more (.done _) (.done (.done [])))
    rw [List.append_nil] at hjoined
    exact readLine_eq_ok_iff.mpr (readEvents_joined hjoined)
  have hp : p <+: s := by
    obtain ⟨u, hu⟩ := (recordText_print e []).exists_eq
    rw [List.append_nil] at hu
    refine (List.prefix_append_right_inj _).mpr ?_
    rw [hu]
    exact ⟨u, rfl⟩
  exact ⟨hread, hp, readLine_prefix hread hp⟩

end Lineage.Audit

import Mathlib.Data.List.Forall2
import Lineage.Proofs.Audit.Entries
import Lineage.Proofs.Audit.Printing
import Lineage.Proofs.Audit.Reader

/-!
# What a record means

A record means its known members and nothing else.  `Outcome ms` says what comes of a record with
the members `ms`.  If every required key occurs it is an event, which has for each field the value
of the last member with its key (`Means`).  Otherwise it is the set of the required fields that do
not occur.

A line is read if and only if it consists of the texts of complete records (`readLine_ok_iff`), and
it gives what comes of its records one after the other (`readLine_text`).
-/

namespace Lineage.Audit

open Lineage.Json
open Lineage.Json.Grammar

/-! ## Meanings -/

/-- The value of a field that does not occur. -/
def FieldType.blank : (t : FieldType) → t.Value
  | .text => ""
  | .word32 => 0
  | .word64 => 0

/-- Every required key occurs among some members. -/
def Complete (ms : List Member) : Prop :=
  ∀ f : Field, f.isRequired = true → f.key ∈ ms.map Member.key

/-- An event has what some members say. -/
structure Means (ms : List Member) (e : Event) : Prop where
  /-- A field has the value of the last member with its key. -/
  last : ∀ (f : Field) (v : f.type.Value) (before after : List Member),
    ms = before ++ .known ⟨f, v⟩ :: after → f.key ∉ after.map Member.key → e.get f = v
  /-- A field whose key does not occur is empty or zero. -/
  absent : ∀ f : Field, f.key ∉ ms.map Member.key → e.get f = f.type.blank

/-- What comes of a record with some members. -/
inductive Outcome (ms : List Member) : Except FieldSet Event → Prop
  /-- The event of a complete record. -/
  | event {e : Event} : Complete ms → Means ms e → Outcome ms (.ok e)
  /-- The required fields whose keys do not occur, if there are any. -/
  | missing {missing : FieldSet} : ¬ Complete ms →
    (∀ i, missing.bits.getLsbD i = true ↔
      ∃ f : Field, f.index = i ∧ f.isRequired = true ∧ f.key ∉ ms.map Member.key) →
    Outcome ms (.error missing)

/-- Members in another order, with more members of unknown keys among them.  Only members with
distinct keys change places. -/
inductive Rearranged (ms : List Member) : List Member → Prop
  /-- The members as they are. -/
  | same : Rearranged ms ms
  /-- A member with an unknown key is put between the others. -/
  | insert {before after : List Member} (key : String) (unknown : ∀ f : Field, f.key ≠ key) :
    Rearranged ms (before ++ after) → Rearranged ms (before ++ .other key unknown :: after)
  /-- Members that stand next to each other and have distinct keys are permuted. -/
  | permute {before block block' after : List Member} : Rearranged ms (before ++ block ++ after) →
    (block.map Member.key).Nodup → block.Perm block' → Rearranged ms (before ++ block' ++ after)

/-! ## What comes of the entries -/

/-- The fields that are reported missing are the required ones whose keys do not occur. -/
theorem getLsbD_missing (ms : List Member) (i : Nat) :
    (FieldSet.required.diff (observed (entries ms))).bits.getLsbD i = true ↔
      ∃ f : Field, f.index = i ∧ f.isRequired = true ∧ f.key ∉ ms.map Member.key := by
  rw [FieldSet.getLsbD_diff, FieldSet.getLsbD_required, getLsbD_observed]
  constructor
  · rintro ⟨⟨f, hi, hrequired⟩, habsent⟩
    exact ⟨f, hi, hrequired, fun hmem => habsent ⟨f, hi, hmem⟩⟩
  · rintro ⟨f, hi, hrequired, habsent⟩
    refine ⟨⟨f, hi, hrequired⟩, ?_⟩
    rintro ⟨g, hg, hmem⟩
    cases Field.index_injective (hg.trans hi.symm)
    exact habsent hmem

theorem missing_eq_empty_iff (ms : List Member) :
    FieldSet.required.diff (observed (entries ms)) = .empty ↔ Complete ms := by
  constructor
  · intro h f hrequired
    by_contra habsent
    have hmissing := (getLsbD_missing ms f.index).mpr ⟨f, rfl, hrequired, habsent⟩
    rw [h, FieldSet.getLsbD_empty] at hmissing
    cases hmissing
  · intro h
    refine FieldSet.ext_getLsbD fun i => ?_
    rw [getLsbD_missing, FieldSet.getLsbD_empty]
    refine iff_of_false ?_ Bool.false_ne_true
    rintro ⟨f, _, hrequired, habsent⟩
    exact habsent (h f hrequired)

theorem means_ofEntries (ms : List Member) : Means ms (Event.ofEntries (entries ms)) where
  last := by
    rintro f v before after rfl habsent
    rw [key_mem_iff] at habsent
    rw [entries_append, entries_known, Event.ofEntries, List.foldl_append, List.foldl_cons,
      get_foldl_of_not_mem habsent, Event.get_set_self]
  absent := by
    intro f habsent
    rw [key_mem_iff] at habsent
    rw [Event.ofEntries, get_foldl_of_not_mem habsent]
    cases f <;> rfl

/-- The entries of a record give what comes of it. -/
theorem outcome_ofEntries? (ms : List Member) : Outcome ms (Event.ofEntries? (entries ms)) := by
  rw [Event.ofEntries?]
  split
  · rename_i hempty
    exact .event ((missing_eq_empty_iff ms).mp hempty) (means_ofEntries ms)
  · rename_i hmissing
    exact .missing (mt (missing_eq_empty_iff ms).mpr hmissing) (getLsbD_missing ms)

theorem ofEntries?_isOk_iff (ms : List Member) :
    (∃ e, Event.ofEntries? (entries ms) = .ok e) ↔ Complete ms := by
  have houtcome := outcome_ofEntries? ms
  constructor
  · rintro ⟨e, he⟩
    rw [he] at houtcome
    cases houtcome with
    | event hcomplete => exact hcomplete
  · intro hcomplete
    cases h : Event.ofEntries? (entries ms) with
    | ok e => exact ⟨e, rfl⟩
    | error missing =>
        rw [h] at houtcome
        cases houtcome with
        | missing hincomplete => exact absurd hcomplete hincomplete

/-! ## Members in another order -/

/-- Members whose keys are all distinct may stand in any order. -/
theorem Rearranged.of_perm {ms ms' : List Member} (hperm : ms.Perm ms')
    (hnodup : (ms.map Member.key).Nodup) : Rearranged ms ms' := by
  have hsame : Rearranged ms ([] ++ ms ++ []) := by
    rw [List.nil_append, List.append_nil]
    exact .same
  have hpermuted := hsame.permute hnodup hperm
  rwa [List.nil_append, List.append_nil] at hpermuted

/-- What comes of a record does not depend on members of unknown keys or on the order of members
with distinct keys. -/
theorem Rearranged.ofEntries?_eq {ms ms' : List Member} (h : Rearranged ms ms') :
    Event.ofEntries? (entries ms') = Event.ofEntries? (entries ms) := by
  induction h with
  | same => rfl
  | insert key unknown _ ih =>
      rw [← ih, entries_append, entries_append, entries_other]
  | @permute before block block' after _ hnodup hperm ih =>
      have hentries : (entries block).Perm (entries block') := hperm.filterMap Member.entry?
      have hevent : Event.ofEntries (entries (before ++ block' ++ after)) =
          Event.ofEntries (entries (before ++ block ++ after)) := by
        simp only [Event.ofEntries, entries_append, List.foldl_append,
          foldl_set_perm hentries (nodup_fields hnodup)]
      have hmem : ∀ f : Field, f.key ∈ (before ++ block' ++ after).map Member.key ↔
          f.key ∈ (before ++ block ++ after).map Member.key := by
        intro f
        exact (((hperm.append_left before).append_right after).map Member.key).symm.mem_iff
      have hobserved : observed (entries (before ++ block' ++ after)) =
          observed (entries (before ++ block ++ after)) := by
        refine FieldSet.ext_getLsbD fun i => ?_
        rw [getLsbD_observed, getLsbD_observed]
        simp only [hmem]
      rw [← ih, Event.ofEntries?, Event.ofEntries?, hevent, hobserved]

/-! ## Lines -/

/-- The records of a document are read one after the other, up to the first that lacks a field. -/
theorem readEvents_document {s : Bytes} {records : List (List Member)}
    (h : DocumentText s records) :
    readEvents s =
      ((records.map fun ms => Event.ofEntries? (entries ms)).mapM id).mapError Stop.incomplete := by
  induction h with
  | done hblanks => exact readEvents_blank hblanks
  | @more ms records _ _ _ hblanks hrecord _ ih =>
      rw [readEvents_record hblanks hrecord, ih, List.map_cons, List.mapM_cons]
      cases Event.ofEntries? (entries ms) with
      | error missing => rfl
      | ok event =>
          cases (records.map fun ms => Event.ofEntries? (entries ms)).mapM id <;> rfl

theorem readLine_document {s : Bytes} {records : List (List Member)} (h : DocumentText s records)
    (line : Nat) :
    readLine line s =
      ((records.map fun ms => Event.ofEntries? (entries ms)).mapM id).mapError fun missing =>
        ⟨line, .record (.missingFields missing)⟩ := by
  rw [readLine, readDocument, readEvents_document h]
  cases (records.map fun ms => Event.ofEntries? (entries ms)).mapM id <;> rfl

theorem mapM_id_eq_ok_iff {α ε : Type} {results : List (Except ε α)} {as : List α} :
    results.mapM id = .ok as ↔ results = as.map .ok := by
  induction results generalizing as with
  | nil => cases as <;> simp [pure, Except.pure]
  | cons result results ih =>
      rw [List.mapM_cons]
      cases result with
      | error e => cases as <;> simp [bind, Except.bind]
      | ok a =>
          cases h : results.mapM id with
          | error e => cases as <;> simp [bind, Except.bind, ← ih, h]
          | ok as' => cases as <;> simp [bind, Except.bind, pure, Except.pure, ← ih, h]

theorem readEvents_eq_ok_iff {s : Bytes} {events : List Event} :
    readEvents s = .ok events ↔ ∃ records, DocumentText s records ∧
      records.map (fun ms => Event.ofEntries? (entries ms)) = events.map .ok := by
  constructor
  · exact text_of_readEvents
  · rintro ⟨records, hdocument, hevents⟩
    rw [readEvents_document hdocument, mapM_id_eq_ok_iff.mpr hevents]
    rfl

/-- Records give events if and only if they are complete. -/
theorem exists_events_iff (records : List (List Member)) :
    (∃ events : List Event,
      records.map (fun ms => Event.ofEntries? (entries ms)) = events.map .ok) ↔
      ∀ ms ∈ records, Complete ms := by
  induction records with
  | nil => exact iff_of_true ⟨[], rfl⟩ (List.forall_mem_nil _)
  | cons ms records ih =>
      rw [List.forall_mem_cons, ← ih, ← ofEntries?_isOk_iff]
      constructor
      · rintro ⟨_ | ⟨event, events⟩, h⟩
        · cases h
        · rw [List.map_cons, List.map_cons, List.cons.injEq] at h
          exact ⟨⟨event, h.1⟩, events, h.2⟩
      · rintro ⟨⟨event, hevent⟩, events, hevents⟩
        exact ⟨event :: events, by rw [List.map_cons, List.map_cons, hevent, hevents]⟩

/-- A line is read if and only if it consists of the texts of complete records. -/
theorem readLine_ok_iff (line : Nat) (s : Bytes) :
    (∃ events, readLine line s = .ok events) ↔
      ∃ records, DocumentText s records ∧ ∀ ms ∈ records, Complete ms := by
  simp only [readLine_eq_ok_iff, readEvents_eq_ok_iff]
  constructor
  · rintro ⟨events, records, hdocument, hevents⟩
    exact ⟨records, hdocument, (exists_events_iff records).mp ⟨events, hevents⟩⟩
  · rintro ⟨records, hdocument, hcomplete⟩
    obtain ⟨events, hevents⟩ := (exists_events_iff records).mpr hcomplete
    exact ⟨events, records, hdocument, hevents⟩

/-- A line of records gives what comes of each of them, up to the first that is not complete.
However the same members are written, in another order or with more members of unknown keys among
them, it gives the same. -/
theorem readLine_text (line : Nat) {s : Bytes} {records : List (List Member)}
    (h : DocumentText s records) :
    (∃ outcomes, List.Forall₂ Outcome records outcomes ∧
      readLine line s =
        (outcomes.mapM id).mapError fun missing => ⟨line, .record (.missingFields missing)⟩) ∧
    ∀ {s' : Bytes} {records' : List (List Member)}, DocumentText s' records' →
      List.Forall₂ Rearranged records records' → readLine line s' = readLine line s := by
  refine ⟨⟨_, ?_, readLine_document h line⟩, ?_⟩
  · exact List.forall₂_map_right_iff.mpr
      (List.forall₂_same.mpr fun ms _ => outcome_ofEntries? ms)
  · intro s' records' h' hrearranged
    have houtcomes : records'.map (fun ms => Event.ofEntries? (entries ms)) =
        records.map (fun ms => Event.ofEntries? (entries ms)) := by
      clear h h'
      induction hrearranged with
      | nil => rfl
      | cons hms _ ih => rw [List.map_cons, List.map_cons, hms.ofEntries?_eq, ih]
    rw [readLine_document h line, readLine_document h' line, houtcomes]

/-- The record of an event, as it is written and with its members in the opposite order. -/
theorem readLine_text_reverse :
    let e : Event := { event := "audit:event:aue_fork:", time := 1, pid := 2 }
    let reversed := utf8 (printObject (e.entries.reverse.map Entry.print))
    (∃ outcomes, List.Forall₂ Outcome [e.entries.map .known] outcomes ∧
      readLine 1 (utf8 e.print) =
        (outcomes.mapM id).mapError fun missing => ⟨1, .record (.missingFields missing)⟩) ∧
    readLine 1 reversed = readLine 1 (utf8 e.print) := by
  intro e reversed
  have htext := recordText_print e []
  have htext' := recordText_printObject e.entries.reverse []
  rw [List.append_nil] at htext htext'
  have hdocument : DocumentText (utf8 e.print) [e.entries.map .known] :=
    .more (.done _) htext (.done (.done []))
  have hdocument' : DocumentText reversed [e.entries.reverse.map .known] :=
    .more (.done _) htext' (.done (.done []))
  have hnodup : ((e.entries.map Member.known).map Member.key).Nodup := by decide
  have hrearranged : Rearranged (e.entries.map .known) (e.entries.reverse.map .known) :=
    .of_perm ((List.reverse_perm e.entries).symm.map Member.known) hnodup
  exact ⟨(readLine_text 1 hdocument).1,
    (readLine_text 1 hdocument).2 hdocument' (.cons hrearranged .nil)⟩

end Lineage.Audit

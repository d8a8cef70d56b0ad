import Lineage.Proofs.Audit.RecordText
import Lineage.Proofs.Json.Printer

/-!
# The texts of written records

`Event.print` writes the text of a record whose members are those of the event, one for each field
(`recordText_print`).  It stays within one line (`lineFeed_not_mem_print`).
-/

namespace Lineage.Audit

open Lineage.Json
open Lineage.Json.Grammar

/-- The key of an entry and the text of its value. -/
def Entry.print (entry : Entry) : String × String :=
  (entry.field.key, entry.field.type.print entry.value)

/-- The entries of an event, one for each field. -/
def Event.entries (e : Event) : List Entry := Field.all.map fun f => ⟨f, e.get f⟩

theorem Event.print_eq (e : Event) : e.print = printObject (e.entries.map Entry.print) := by
  rw [print, entries, List.map_map]
  rfl

/-! ## Members -/

/-- What is written for a value is a literal of it. -/
theorem literal_print {t : FieldType} (v : t.Value) (r : Bytes) :
    Literal t (utf8 (t.print v) ++ r) v r := by
  cases t with
  | text => exact .text (text_printString v r)
  | word32 =>
      have hv := v.toNat_lt
      exact .word32 (.natural (whole_repr v.toNat r)) (by omega) (by omega) (by omega)
  | word64 =>
      have hv := v.toNat_lt
      exact .word64 (.natural (whole_repr v.toNat r)) (by omega) (by omega) (by omega)

theorem memberText_print (entry : Entry) (r : Bytes) :
    MemberText
      (utf8 (printString entry.field.key ++ ":" ++ entry.field.type.print entry.value) ++ r)
      (.known entry) r := by
  have hcolon : utf8 ":" = [colon] := rfl
  rw [utf8_append, utf8_append, hcolon, List.append_assoc, List.append_assoc]
  exact .mk (.done _) (text_printString _ _) (.done _) (.known (.done _) (literal_print _ r))

theorem membersText_print (entry : Entry) (es : List Entry) (r : Bytes) :
    MembersText
      (utf8 (",".intercalate (((entry :: es).map Entry.print).map fun m =>
        printString m.1 ++ ":" ++ m.2)) ++ closeBrace :: r)
      ((entry :: es).map .known) r := by
  induction es generalizing entry with
  | nil =>
      rw [List.map_singleton, List.map_singleton, String.intercalate_singleton, List.map_singleton]
      exact .last (memberText_print entry _) (.done _)
  | cons entry' es ih =>
      have hcomma : utf8 "," = [comma] := rfl
      rw [List.map_cons, List.map_cons, List.map_cons, List.map_cons, String.intercalate_cons_cons,
        utf8_append, utf8_append, hcomma, List.append_assoc, List.append_assoc]
      exact .more (memberText_print entry _) (.done _) (ih entry')

/-- The entries that are written are those of the record. -/
theorem recordText_printObject (es : List Entry) (r : Bytes) :
    RecordText (utf8 (printObject (es.map Entry.print)) ++ r) (es.map .known) r := by
  have hbraces : utf8 (printObject (es.map Entry.print)) ++ r =
      openBrace ::
        (utf8 (",".intercalate ((es.map Entry.print).map fun m => printString m.1 ++ ":" ++ m.2)) ++
          closeBrace :: r) := by
    rw [printObject, utf8_append, utf8_append, List.append_assoc, List.append_assoc]
    rfl
  rw [hbraces]
  cases es with
  | nil => exact .empty (.done _)
  | cons entry es => exact .filled (membersText_print entry es r)

/-! ## Events -/

/-- What is written for an event is a record with a member for each field. -/
theorem recordText_print (e : Event) (r : Bytes) :
    RecordText (utf8 e.print ++ r) (e.entries.map .known) r :=
  e.print_eq ▸ recordText_printObject e.entries r

theorem isPrinted_print {t : FieldType} (v : t.Value) : IsPrinted (t.print v) := by
  cases t with
  | text => exact isPrinted_printString v
  | word32 | word64 => exact isPrinted_repr v.toNat

theorem lineFeed_not_mem_print (e : Event) : lineFeed ∉ utf8 e.print := by
  intro h
  have hprinted : IsPrinted e.print := by
    refine isPrinted_printObject fun m hm => ?_
    obtain ⟨f, _, rfl⟩ := List.mem_map.mp hm
    exact isPrinted_print (e.get f)
  exact absurd (hprinted.le_of_mem h) (by decide)

end Lineage.Audit

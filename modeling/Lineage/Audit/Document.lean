import Lineage.Audit.Record
import Lineage.Text.Hex

/-!
# Documents

A document is a sequence of records with blanks around them and nothing between them.  It is read
all or nothing (`readDocument`).  The first record that breaks the grammar or lacks a required field
is the error of the whole document, and no event is returned.

`RecordError` is what a caller sees.  A fault has become a position in the document.
-/

namespace Lineage.Audit

open Lineage.Json

/-! ## Errors -/

/-- Why a record is refused. -/
inductive RecordError where
  /-- The record is complete and lacks required fields. -/
  | missingFields (missing : FieldSet)
  /-- The text is no JSON, no object, or has a value of the wrong type. -/
  | malformed (cause : Cause) (position : Position)

/-- The message of an error. -/
def RecordError.message : RecordError → String
  | .missingFields missing =>
    "trace event missing required fields [" ++ missing.keyList ++ "] (mask 0x" ++
      Text.paddedHex 6 missing.bits.toNat ++ ")"
  | .malformed cause p =>
    "malformed trace record: " ++ cause.message ++ " at line " ++ toString p.line ++ " column " ++
      toString p.column

/-- The missing fields, if that is the error. -/
def RecordError.missing? : RecordError → Option FieldSet
  | .missingFields missing => some missing
  | .malformed .. => none

/-! ## Reading -/

/-- Why reading a document stopped. -/
inductive Stop where
  /-- A record lacks required fields. -/
  | incomplete (missing : FieldSet)
  /-- The text has a fault. -/
  | fault (f : Fault)

/-- The error that a stop is in its document. -/
def Stop.locate (document : Bytes) : Stop → RecordError
  | .incomplete missing => .missingFields missing
  | .fault f => .malformed f.cause (f.position document)

/-- Reads the records at the front up to the end of the text. -/
def readEvents (s : Bytes) : Except Stop (List Event) :=
  match _h : skipBlanks s with
  | [] => .ok []
  | b :: r =>
    match _h₁ : readRecord (b :: r) with
    | .error f => .error (.fault f)
    | .ok (entries, r') =>
      match Event.ofEntries? entries with
      | .error missing => .error (.incomplete missing)
      | .ok event =>
        match readEvents r' with
        | .error stop => .error stop
        | .ok events => .ok (event :: events)
termination_by s.length
decreasing_by
  have h₀ := length_skipBlanks_le s
  rw [_h] at h₀
  have := length_readRecord_lt _h₁
  omega

/-- The events of a document. -/
def readDocument (document : Bytes) : Except RecordError (List Event) :=
  (readEvents document).mapError (Stop.locate document)

end Lineage.Audit

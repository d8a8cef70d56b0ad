import Lineage.Audit.Event
import Lineage.Json.Member
import Lineage.Json.Printer

/-!
# Records

A record is a JSON object.  Reading it gives its *entries*, which are the known fields with their
values in the order of the text (`readRecord`).  Members with other keys are skipped whole, whatever
their shape.  An event is built from the entries alone (`Event.ofEntries?`).  A later entry of a
field replaces an earlier one, and every required field has to occur.

Numbers are read signed or unsigned, and a negative one wraps.  `Event.print` writes the record of
an event with all its fields.
-/

namespace Lineage.Audit

open Lineage.Json

/-! ## Values -/

/-- What messages call a value of a type. -/
def FieldType.expectation : FieldType → String
  | .text => "a string"
  | .word32 => "a 32-bit signed or unsigned integer"
  | .word64 => "a 64-bit signed or unsigned integer"

/-- The integers that fit 32 bits, signed or unsigned. -/
def fitsWord32 (n : Int) : Bool := -0x80000000 ≤ n && n < UInt32.size

/-- The integers that fit 64 bits, signed or unsigned. -/
def fitsWord64 (n : Int) : Bool := -0x8000000000000000 ≤ n && n < UInt64.size

/-- The word of 32 bits that an integer wraps to. -/
def wrap32 (n : Int) : UInt32 := UInt32.ofNat (n % UInt32.size).toNat

/-- The word of 64 bits that an integer wraps to. -/
def wrap64 (n : Int) : UInt64 := UInt64.ofNat (n % UInt64.size).toNat

/-- Reads a value of a type. -/
def FieldType.read (t : FieldType) (s : Bytes) : Read t.Value :=
  match t with
  | .text => readString t.expectation s
  | .word32 =>
    match readInteger t.expectation fitsWord32 s with
    | .error f => .error f
    | .ok (n, r) => .ok (wrap32 n, r)
  | .word64 =>
    match readInteger t.expectation fitsWord64 s with
    | .error f => .error f
    | .ok (n, r) => .ok (wrap64 n, r)

theorem FieldType.length_read_le {t : FieldType} {s r : Bytes} {v : t.Value}
    (h : t.read s = .ok (v, r)) : r.length ≤ s.length := by
  unfold FieldType.read at h
  cases t with
  | text => exact length_readString_le h
  | word32 =>
    dsimp only at h
    split at h
    · simp at h
    · rename_i h'
      have := length_readInteger_le h'
      simp_all
  | word64 =>
    dsimp only at h
    split at h
    · simp at h
    · rename_i h'
      have := length_readInteger_le h'
      simp_all

/-! ## Entries -/

/-- A known field and its value. -/
structure Entry where
  /-- The field. -/
  field : Field
  /-- Its value. -/
  value : field.type.Value

/-- Reads the colon and the value behind a key, and keeps the value of a known field. -/
def readEntry (done : List Entry) (key : String) (s : Bytes) : Except Fault (List Entry × Bytes) :=
  match readColon s with
  | .error f => .error f
  | .ok s =>
    match Field.ofKey? key with
    | none =>
      match skipValue s with
      | .error f => .error f
      | .ok r => .ok (done, r)
    | some field =>
      match field.type.read s with
      | .error f => .error f
      | .ok (value, r) => .ok (⟨field, value⟩ :: done, r)

theorem length_readEntry_le {done es : List Entry} {key : String} {s r : Bytes}
    (h : readEntry done key s = .ok (es, r)) : r.length ≤ s.length := by
  unfold readEntry at h
  split at h
  · simp at h
  · rename_i h₁
    have := length_readColon_lt h₁
    split at h
    · split at h
      · simp at h
      · rename_i h₂
        have := length_skipValue_le h₂
        simp_all; omega
    · split at h
      · simp at h
      · rename_i h₂
        have := FieldType.length_read_le h₂
        simp_all; omega

/-- The step that collects entries, last one first. -/
def entryStep : MemberStep (List Entry) where
  run := readEntry
  short := length_readEntry_le

/-- Reads a record. -/
def readRecord (s : Bytes) : Read (List Entry) :=
  match skipBlanks s with
  | [] => .error (.next .endOfValue [])
  | b :: r =>
    if b = openBrace then
      match foldMembers entryStep [] true r with
      | .error f => .error f
      | .ok (done, r) => .ok (done.reverse, r)
    else .error (wrongType "a trace event object" (b :: r))

theorem length_readRecord_lt {s r : Bytes} {es : List Entry} (h : readRecord s = .ok (es, r)) :
    r.length < s.length := by
  have h₀ := length_skipBlanks_le s
  unfold readRecord at h
  split at h
  · simp at h
  · rename_i hs
    rw [hs] at h₀
    split at h
    · split at h
      · simp at h
      · rename_i h₁
        have := length_foldMembers_lt h₁
        simp at h h₀
        grind
    · simp at h

/-! ## Events from entries -/

/-- The fields that occur among some entries. -/
def observed (es : List Entry) : FieldSet := .ofList (es.map Entry.field)

/-- The event with the values of some entries, a later one in place of an earlier one. -/
def Event.ofEntries (es : List Entry) : Event :=
  es.foldl (fun e entry => e.set entry.field entry.value) {}

/-- The event of some entries, or the required fields that do not occur. -/
def Event.ofEntries? (es : List Entry) : Except FieldSet Event :=
  let missing := FieldSet.required.diff (observed es)
  if missing = .empty then .ok (.ofEntries es) else .error missing

/-! ## Writing a record -/

/-- The text of a value. -/
def FieldType.print : (t : FieldType) → t.Value → String
  | .text, s => printString s
  | .word32, n => toString n.toNat
  | .word64, n => toString n.toNat

/-- The record of an event, with all fields in the order of their positions. -/
def Event.print (e : Event) : String :=
  printObject (Field.all.map fun f => (f.key, f.type.print (e.get f)))

end Lineage.Audit

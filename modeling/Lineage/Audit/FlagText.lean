import Lineage.Audit.FieldSet
import Lineage.Json.Typed
import Lineage.Text.Blank
import Lineage.Text.Hex

/-!
# The text form of a set of fields

A set of fields is written as the upper-case keys of its fields in the order of their positions,
followed by the bits outside the known fields in hexadecimal, with ` | ` between the parts
(`FieldSet.flagText`).  The empty set is the empty text.

Reading is more liberal (`FieldSet.ofFlagText?`).  Parts may come in any order and repeat, blanks
around them do not count, `REQUIRED` stands for the nine required fields, and any 32 bits may be
given in hexadecimal.  A part that is empty or anything else makes the text unreadable.  In JSON a
set is the string of its flag text (`FieldSet.read`).
-/

namespace Lineage.Audit

/-- The name of a field in a flag text. -/
def Field.flagName (f : Field) : String := f.key.map Char.toUpper

/-- The field with a name in a flag text. -/
def Field.ofFlagName? (name : List Char) : Option Field :=
  Field.all.find? fun f => f.flagName.toList == name

namespace FieldSet

/-- The name of the nine required fields together. -/
def requiredName : String := "REQUIRED"

/-- The parts of a flag text. -/
def flagParts (s : FieldSet) : List String :=
  let rest := s.diff known
  s.toList.map Field.flagName ++ if rest = empty then [] else ["0x" ++ Text.hex rest.bits.toNat]

/-- The text form of a set of fields. -/
def flagText (s : FieldSet) : String := " | ".intercalate s.flagParts

/-- The set of one part of a flag text. -/
def ofFlagPart? : List Char → Option FieldSet
  | '0' :: 'x' :: cs =>
    match Text.unsignedHex? cs with
    | some n => if n < UInt32.size then some ⟨BitVec.ofNat 32 n⟩ else none
    | none => none
  | name =>
    match Field.ofFlagName? name with
    | some f => some (singleton f)
    | none => if name = requiredName.toList then some required else none

/-- The union of the sets of some parts. -/
def ofFlagParts? : FieldSet → List (List Char) → Option FieldSet
  | s, [] => some s
  | s, part :: parts =>
    match ofFlagPart? (Text.trim part) with
    | some t => ofFlagParts? (s.union t) parts
    | none => none

/-- The set of a flag text. -/
def ofFlagText? (text : String) : Option FieldSet :=
  if (Text.trim text.toList).isEmpty then some empty
  else ofFlagParts? empty (Text.pieces '|' text.toList)

/-- What messages call a flag text. -/
def flagTextName : String := "a set of field flags"

/-- Reads a set of fields from the string of its flag text. -/
def read (s : Json.Bytes) : Json.Read FieldSet :=
  match Json.readString flagTextName s with
  | .error f => .error f
  | .ok (text, r) =>
    match ofFlagText? text with
    | some fields => .ok (fields, r)
    | none => .error (.here (.mismatch (.wrongText text flagTextName)) r)

end FieldSet

end Lineage.Audit

import Lineage.Json.Fault

/-!
# Bytes, blanks and words of JSON

The bytes with a meaning in the grammar, the blanks that may stand between tokens, and the words
`null`, `true` and `false`.  Every reader here returns a rest that is no longer than its input.
-/

namespace Lineage.Json

/-! ## Bytes -/

/-- The double quote. -/
abbrev quote : UInt8 := 0x22

/-- The backslash. -/
abbrev backslash : UInt8 := 0x5c

/-- The comma. -/
abbrev comma : UInt8 := 0x2c

/-- The colon. -/
abbrev colon : UInt8 := 0x3a

/-- The minus sign. -/
abbrev minus : UInt8 := 0x2d

/-- The opening brace. -/
abbrev openBrace : UInt8 := 0x7b

/-- The closing brace. -/
abbrev closeBrace : UInt8 := 0x7d

/-- The opening bracket. -/
abbrev openBracket : UInt8 := 0x5b

/-- The closing bracket. -/
abbrev closeBracket : UInt8 := 0x5d

/-- The bytes of an ASCII text. -/
def ascii (s : String) : Bytes := s.toList.map fun c => c.toNat.toUInt8

/-- Space, tab, line feed and carriage return. -/
def isBlank (b : UInt8) : Bool := b == 0x20 || b == 0x09 || b == 0x0a || b == 0x0d

/-- The ten digits. -/
def isDigit (b : UInt8) : Bool := 0x30 ≤ b && b ≤ 0x39

/-- The value of a digit. -/
def digitValue (b : UInt8) : Nat := b.toNat - 0x30

/-- The value of a hexadecimal digit of either case. -/
def hexValue? (b : UInt8) : Option Nat :=
  if isDigit b then some (b.toNat - 0x30)
  else if 0x41 ≤ b ∧ b ≤ 0x46 then some (b.toNat - 0x41 + 10)
  else if 0x61 ≤ b ∧ b ≤ 0x66 then some (b.toNat - 0x61 + 10)
  else none

/-! ## Blanks -/

/-- The text behind the blanks at its front. -/
def skipBlanks (s : Bytes) : Bytes := s.dropWhile isBlank

theorem length_skipBlanks_le (s : Bytes) : (skipBlanks s).length ≤ s.length :=
  (List.dropWhile_sublist _).length_le

/-! ## Words -/

/-- Reads the rest of a word byte by byte. -/
def readWord : Bytes → Bytes → Except Fault Bytes
  | [], s => .ok s
  | _ :: _, [] => .error (.here .endOfValue [])
  | w :: ws, b :: r => if b = w then readWord ws r else .error (.here .expectedWord r)

theorem length_readWord_le {w s r : Bytes} (h : readWord w s = .ok r) : r.length ≤ s.length := by
  fun_induction readWord w s with
  | case1 s => simp_all
  | case2 => simp at h
  | case3 w ws r' ih => have := ih h; simp; omega
  | case4 => simp at h

end Lineage.Json

import Lineage.Text.Hex
import Lineage.Text.Unprinted

/-!
# Quoted text

`quoted` shows a text between double quotes inside a message.  The quote, the backslash, tab,
carriage return, line feed and the null character have short escapes.  Every other character
without a shape of its own is written as its code point in braces.  All else stands as it is.
-/

namespace Lineage.Text

/-- One character between the quotes. -/
def quotedChar (c : Char) : String :=
  if c = '"' then "\\\""
  else if c = '\\' then "\\\\"
  else if c = '\t' then "\\t"
  else if c = '\r' then "\\r"
  else if c = '\n' then "\\n"
  else if c.toNat = 0 then "\\0"
  else if 0x20 ≤ c.toNat ∧ c.toNat < 0x7f then c.toString
  else if isUnprinted c then "\\u\x7b" ++ hex c.toNat ++ "\x7d"
  else c.toString

/-- A text between double quotes. -/
def quoted (s : String) : String :=
  "\"" ++ s.foldl (fun t c => t ++ quotedChar c) "" ++ "\""

end Lineage.Text

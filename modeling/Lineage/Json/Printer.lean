import Lineage.Json.Token

/-!
# Writing JSON

A string is written between double quotes.  The quote, the backslash and the control characters are
escaped, by a letter where there is one and by four hexadecimal digits otherwise, and all else
stands as it is.  An object is written without blanks, its members in the order given, or laid out
over lines with two spaces for each level (`layoutObject`).
-/

namespace Lineage.Json

/-- The four hexadecimal digits of a code below 256. -/
def hexEscape (n : Nat) : List Char :=
  ['\\', 'u', '0', '0', Nat.digitChar (n / 16), Nat.digitChar (n % 16)]

/-- One character of a string. -/
def escapeChar (c : Char) : List Char :=
  if c = '"' then ['\\', '"']
  else if c = '\\' then ['\\', '\\']
  else if c = '\x08' then ['\\', 'b']
  else if c = '\t' then ['\\', 't']
  else if c = '\n' then ['\\', 'n']
  else if c = '\x0c' then ['\\', 'f']
  else if c = '\r' then ['\\', 'r']
  else if c.toNat < 0x20 then hexEscape c.toNat
  else [c]

/-- The characters of a string between double quotes. -/
def escaped (cs : List Char) : List Char := '"' :: (cs.flatMap escapeChar ++ ['"'])

/-- The text of a string. -/
def printString (s : String) : String := String.ofList (escaped s.toList)

/-- The text of an object from the texts of its members' values. -/
def printObject (members : List (String × String)) : String :=
  "\x7b" ++ ",".intercalate (members.map fun m => printString m.1 ++ ":" ++ m.2) ++ "\x7d"

/-- Two spaces for each level. -/
def indent (level : Nat) : String := String.ofList (List.replicate (2 * level) ' ')

/-- The text of an object over several lines, which starts at a level.  There is at least one
member. -/
def layoutObject (level : Nat) (members : List (String × String)) : String :=
  "\x7b\n" ++ ",\n".intercalate (members.map fun m =>
    indent (level + 1) ++ printString m.1 ++ ": " ++ m.2) ++ "\n" ++ indent level ++ "\x7d"

/-- The text of an array from the texts of its elements. -/
def printArray (elements : List String) : String :=
  "[" ++ ",".intercalate elements ++ "]"

end Lineage.Json

import Lineage.Decimal.Shortest
import Lineage.Text.Quoted

/-!
# Faults of a JSON text

A *fault* is a cause together with the place where reading stopped.  Readers work on the bytes that
are still unread, so a fault keeps the number of bytes behind its place (`Fault.left`), and the line
and column follow once the whole text is known (`Fault.position`).

There are two kinds of places.  `Fault.here` is the place reached so far.  `Fault.next` is the place
behind the next byte, for a fault about a byte that was looked at and not read.  At the end of the
text the two agree.

A *mismatch* is a cause of its own kind: the text is well formed and its value does not fit its
place.  `Cause.category` tells the kinds of causes apart.
-/

namespace Lineage.Json

/-- A text as the bytes that hold it. -/
abbrev Bytes := List UInt8

/-- What was found in the place of a value of another type. -/
inductive Found where
  | null
  | boolean (b : Bool)
  | integer (n : Int)
  | float (x : Float)
  | text (s : String)
  | sequence
  | map
  | unitVariant

/-- The words for a found value. -/
def Found.describe : Found → String
  | .null => "null"
  | .boolean b => "boolean \x60" ++ toString b ++ "\x60"
  | .integer n => "integer \x60" ++ toString n ++ "\x60"
  | .float x => "floating point \x60" ++ floatText x ++ "\x60"
  | .text s => "string " ++ Text.quoted s
  | .sequence => "sequence"
  | .map => "map"
  | .unitVariant => "unit variant"

/-- A well-formed value that does not fit its place. -/
inductive Mismatch where
  /-- A value of another type. -/
  | wrongType (found : Found) (expected : String)
  /-- An integer outside the range. -/
  | wrongValue (found : Int) (expected : String)
  /-- A text that stands for no value. -/
  | wrongText (found : String) (expected : String)
  /-- A map where it cannot be. -/
  | wrongMap (expected : String)
  /-- A sequence with too few elements. -/
  | wrongLength (found : Nat) (expected : String)
  /-- A member that has to be there is not. -/
  | missingField (name : String)
  /-- A member that may be there once is there again. -/
  | duplicateField (name : String)
  /-- A name that is not among the alternatives. -/
  | unknownVariant (name : String) (alternatives : List String)

/-- A name between backquotes. -/
def backquoted (name : String) : String := "\x60" ++ name ++ "\x60"

/-- The list of alternatives in a message. -/
def alternatives : List String → String
  | [] => "there are no variants"
  | [a] => "expected " ++ backquoted a
  | [a, b] => "expected " ++ backquoted a ++ " or " ++ backquoted b
  | names => "expected one of " ++ ", ".intercalate (names.map backquoted)

/-- The message of a mismatch. -/
def Mismatch.message : Mismatch → String
  | .wrongType found expected => "invalid type: " ++ found.describe ++ ", expected " ++ expected
  | .wrongValue n expected =>
    "invalid value: integer " ++ backquoted (toString n) ++ ", expected " ++ expected
  | .wrongText s expected =>
    "invalid value: string " ++ Text.quoted s ++ ", expected " ++ expected
  | .wrongMap expected => "invalid value: map, expected " ++ expected
  | .wrongLength n expected => "invalid length " ++ toString n ++ ", expected " ++ expected
  | .missingField name => "missing field " ++ backquoted name
  | .duplicateField name => "duplicate field " ++ backquoted name
  | .unknownVariant name names =>
    "unknown variant " ++ backquoted name ++ ", " ++ alternatives names

/-- Why reading stopped. -/
inductive Cause where
  /-- The text ends where a value has to stand. -/
  | endOfValue
  /-- The text ends inside an object. -/
  | endOfObject
  /-- The text ends inside an array. -/
  | endOfList
  /-- The text ends inside a string. -/
  | endOfString
  /-- A member does not start with a string. -/
  | keyNotString
  /-- A member is followed by neither a comma nor the closing brace. -/
  | expectedCommaOrBrace
  /-- An element is followed by neither a comma nor the closing bracket. -/
  | expectedCommaOrBracket
  /-- A key is not followed by a colon. -/
  | expectedColon
  /-- The last member or element is followed by a comma. -/
  | trailingComma
  /-- The value is followed by more text. -/
  | trailingText
  /-- A word starts as `null`, `true` or `false` and goes on otherwise. -/
  | expectedWord
  /-- No value starts with this byte. -/
  | expectedValue
  /-- A control character stands in a string. -/
  | controlCharacter
  /-- An escape is none of the known ones. -/
  | invalidEscape
  /-- An escaped surrogate stands without its partner. -/
  | loneSurrogate
  /-- A leading surrogate is not followed by an escape. -/
  | brokenPair
  /-- A string is not valid UTF-8. -/
  | notUtf8
  /-- A number breaks the grammar. -/
  | invalidNumber
  /-- A number is too large for a double. -/
  | numberOutOfRange
  /-- Arrays and objects are nested too deeply. -/
  | tooDeep
  /-- A value does not fit its place. -/
  | mismatch (m : Mismatch)

/-- The message of a cause, without its place. -/
def Cause.message : Cause → String
  | .endOfValue => "EOF while parsing a value"
  | .endOfObject => "EOF while parsing an object"
  | .endOfList => "EOF while parsing a list"
  | .endOfString => "EOF while parsing a string"
  | .keyNotString => "key must be a string"
  | .expectedCommaOrBrace => "expected \x60,\x60 or \x60\x7d\x60"
  | .expectedCommaOrBracket => "expected \x60,\x60 or \x60]\x60"
  | .expectedColon => "expected \x60:\x60"
  | .trailingComma => "trailing comma"
  | .trailingText => "trailing characters"
  | .expectedWord => "expected ident"
  | .expectedValue => "expected value"
  | .controlCharacter => "control character (\\u0000-\\u001F) found while parsing a string"
  | .invalidEscape => "invalid escape"
  | .loneSurrogate => "lone leading surrogate in hex escape"
  | .brokenPair => "unexpected end of hex escape"
  | .notUtf8 => "invalid unicode code point"
  | .invalidNumber => "invalid number"
  | .numberOutOfRange => "number out of range"
  | .tooDeep => "recursion limit exceeded"
  | .mismatch m => m.message

/-- The kinds of causes. -/
inductive Category where
  /-- The text breaks the grammar. -/
  | grammar
  /-- The text is well formed and a value does not fit. -/
  | data
  /-- The text ends too early. -/
  | cutShort
  deriving DecidableEq, Repr

/-- The name of a category. -/
def Category.name : Category → String
  | .grammar => "syntax"
  | .data => "data"
  | .cutShort => "eof"

/-- The kind of a cause. -/
def Cause.category : Cause → Category
  | .endOfValue | .endOfObject | .endOfList | .endOfString => .cutShort
  | .mismatch _ => .data
  | _ => .grammar

/-- A line, counted from one, and the number of bytes before the place in that line. -/
structure Position where
  /-- The line. -/
  line : Nat
  /-- The column. -/
  column : Nat
  deriving DecidableEq, Repr

/-- The byte that ends a line. -/
def lineFeed : UInt8 := 0x0a

/-- The position behind the bytes read so far. -/
def Position.after (read : Bytes) : Position where
  line := 1 + read.count lineFeed
  column := (read.reverse.takeWhile (· != lineFeed)).length

/-- A cause and its place. -/
structure Fault where
  /-- Why reading stopped. -/
  cause : Cause
  /-- The number of bytes behind the place. -/
  left : Nat
  /-- The number of columns by which the position is shown before the place. -/
  back : Nat := 0

namespace Fault

/-- A fault at the place reached so far, where `rest` is unread. -/
def here (cause : Cause) (rest : Bytes) : Fault := ⟨cause, rest.length, 0⟩

/-- A fault about the next byte of `rest`, which was not read. -/
def next (cause : Cause) (rest : Bytes) : Fault := ⟨cause, rest.length - 1, 0⟩

/-- The position of a fault in the text it comes from. -/
def position (f : Fault) (text : Bytes) : Position :=
  let p := Position.after (text.take (text.length - f.left))
  { p with column := p.column - f.back }

end Fault

/-- The outcome of reading a value from the front of a text: the value and the unread rest. -/
abbrev Read (α : Type) := Except Fault (α × Bytes)

end Lineage.Json

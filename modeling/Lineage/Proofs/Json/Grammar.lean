import Lineage.Json.Member

/-!
# The grammar of JSON

Each relation of this module says that a text begins with something, and names the text behind it.
So `Whole s n r` reads: the text `s` is a whole number in digits, which is `n`, and then `r`.  None
of them looks ahead.  Where a number could go on, it is for the text behind it to begin with
something else (`EndsNumber`).

Strings come in two kinds.  `Text` decodes a string, pairs of surrogates and all, to the text that
it stands for; `Skipped` only knows where it ends.  Values of any shape are derived from
`Symbol.value`.  Their strings are only skipped, and nothing bounds their nesting.
-/

namespace Lineage.Json

/-- The byte that opens a container. -/
def Container.opening : Container → UInt8
  | .list => openBracket
  | .object => openBrace

namespace Grammar

/-! ## Blanks -/

/-- Any number of blanks. -/
inductive Blanks : Bytes → Bytes → Prop
  /-- No blank. -/
  | done (s : Bytes) : Blanks s s
  /-- A blank and more of them. -/
  | more {b : UInt8} {s r : Bytes} : isBlank b = true → Blanks s r → Blanks (b :: s) r

/-! ## Strings -/

/-- The hexadecimal digits of either case and their values. -/
inductive HexDigit : UInt8 → Nat → Prop
  /-- From `0` to `9`. -/
  | decimal {b : UInt8} : 0x30 ≤ b → b ≤ 0x39 → HexDigit b (b.toNat - 0x30)
  /-- From `A` to `F`. -/
  | upper {b : UInt8} : 0x41 ≤ b → b ≤ 0x46 → HexDigit b (b.toNat - 0x41 + 10)
  /-- From `a` to `f`. -/
  | lower {b : UInt8} : 0x61 ≤ b → b ≤ 0x66 → HexDigit b (b.toNat - 0x61 + 10)

/-- The letters that stand behind a backslash for one character. -/
inductive EscapeLetter : UInt8 → Char → Prop
  | quote : EscapeLetter 0x22 '"'
  | backslash : EscapeLetter 0x5c '\\'
  | slash : EscapeLetter 0x2f '/'
  | backspace : EscapeLetter 0x62 '\x08'
  | formFeed : EscapeLetter 0x66 '\x0c'
  | lineFeed : EscapeLetter 0x6e '\n'
  | carriageReturn : EscapeLetter 0x72 '\r'
  | tab : EscapeLetter 0x74 '\t'

/-- A backslash, the letter `u`, and the four digits of a code unit. -/
inductive CodeUnit : Bytes → Nat → Bytes → Prop
  | mk {a b c d : UInt8} {i j k l : Nat} (r : Bytes) :
    HexDigit a i → HexDigit b j → HexDigit c k → HexDigit d l →
      CodeUnit (backslash :: hexLetter :: a :: b :: c :: d :: r)
        (((i * 16 + j) * 16 + k) * 16 + l) r

/-- An escape and the character that it stands for. -/
inductive Escape : Bytes → Char → Bytes → Prop
  /-- A letter. -/
  | letter {b : UInt8} {c : Char} (r : Bytes) : EscapeLetter b c →
    Escape (backslash :: b :: r) c r
  /-- The code of a character. -/
  | code {c : Char} {s r : Bytes} : CodeUnit s c.toNat r → Escape s c r
  /-- The two halves of the code of a character. -/
  | pair {c : Char} {lead trail : Nat} {s s₁ r : Bytes} :
    CodeUnit s lead s₁ → CodeUnit s₁ trail r → 0xd800 ≤ lead → lead ≤ 0xdbff →
      0xdc00 ≤ trail →
      trail ≤ 0xdfff → c.toNat = 0x10000 + (lead - 0xd800) * 0x400 + (trail - 0xdc00) →
        Escape s c r

/-- A byte that stands for itself in a string. -/
def IsPlain (b : UInt8) : Prop := 0x20 ≤ b ∧ b ≠ quote ∧ b ≠ backslash

/-- The inside of a string and its closing quote, with the bytes that it stands for. -/
inductive TextBytes : Bytes → Bytes → Bytes → Prop
  /-- The closing quote. -/
  | close (r : Bytes) : TextBytes (quote :: r) [] r
  /-- A byte that stands for itself. -/
  | plain {b : UInt8} {s t r : Bytes} : IsPlain b → TextBytes s t r →
    TextBytes (b :: s) (b :: t) r
  /-- An escape. -/
  | escape {c : Char} {s s' t r : Bytes} : Escape s c s' → TextBytes s' t r →
    TextBytes s (String.utf8EncodeChar c ++ t) r

/-- The bytes of a text in UTF-8. -/
def utf8 (t : String) : Bytes := t.toUTF8.data.toList

/-- A string, which stands for a text. -/
inductive Text : Bytes → String → Bytes → Prop
  | mk {s r : Bytes} {t : String} : TextBytes s (utf8 t) r → Text (quote :: s) t r

/-- The inside of a string and its closing quote, whatever it stands for. -/
inductive Skipped : Bytes → Bytes → Prop
  /-- The closing quote. -/
  | close (r : Bytes) : Skipped (quote :: r) r
  /-- A byte that stands for itself. -/
  | plain {b : UInt8} {s r : Bytes} : IsPlain b → Skipped s r → Skipped (b :: s) r
  /-- An escape with a letter. -/
  | letter {b : UInt8} {c : Char} {s r : Bytes} : EscapeLetter b c → Skipped s r →
    Skipped (backslash :: b :: s) r
  /-- An escape with a code unit. -/
  | code {n : Nat} {s s' r : Bytes} : CodeUnit s n s' → Skipped s' r → Skipped s r

/-! ## Numbers -/

/-- Any number of digits.  Behind the digits of `n` they are those of another number. -/
inductive Digits : Nat → Bytes → Nat → Bytes → Prop
  /-- No digit. -/
  | done (n : Nat) (s : Bytes) : Digits n s n s
  /-- A digit and more of them. -/
  | more {n m : Nat} {b : UInt8} {s r : Bytes} : isDigit b = true →
    Digits (n * 10 + digitValue b) s m r → Digits n (b :: s) m r

/-- A whole number without needless zeros. -/
inductive Whole : Bytes → Nat → Bytes → Prop
  /-- A zero. -/
  | zero (r : Bytes) : Whole (0x30 :: r) 0 r
  /-- A digit other than zero, and more of them. -/
  | digits {b : UInt8} {s r : Bytes} {n : Nat} : isDigit b = true → b ≠ 0x30 →
    Digits (digitValue b) s n r → Whole (b :: s) n r

/-- At least one digit. -/
inductive SomeDigits : Bytes → Bytes → Prop
  | mk {b : UInt8} {s r : Bytes} {n : Nat} : isDigit b = true → Digits (digitValue b) s n r →
    SomeDigits (b :: s) r

/-- A minus sign, or nothing. -/
inductive Sign : Bytes → Bytes → Prop
  | absent (s : Bytes) : Sign s s
  | present (r : Bytes) : Sign (minus :: r) r

/-- A point and digits behind it, or nothing. -/
inductive Fraction : Bytes → Bytes → Prop
  | absent (s : Bytes) : Fraction s s
  | digits {s r : Bytes} : SomeDigits s r → Fraction (point :: s) r

/-- The mark of an exponent and digits behind it, perhaps with a sign, or nothing. -/
inductive Exponent : Bytes → Bytes → Prop
  | absent (s : Bytes) : Exponent s s
  | digits {e : UInt8} {s r : Bytes} : isExponentMark e = true →
    SomeDigits s r → Exponent (e :: s) r
  | signed {e sign : UInt8} {s r : Bytes} : isExponentMark e = true →
    sign = plus ∨ sign = minus →
    SomeDigits s r → Exponent (e :: sign :: s) r

/-- A number of any kind. -/
inductive Numeral : Bytes → Bytes → Prop
  | mk {s s₁ s₂ s₃ r : Bytes} {n : Nat} : Sign s s₁ → Whole s₁ n s₂ →
    Fraction s₂ s₃ → Exponent s₃ r →
    Numeral s r

/-- An integer as it is written, with neither fraction nor exponent.  A negative one is not zero. -/
inductive Integer : Bytes → Int → Bytes → Prop
  /-- Without a sign. -/
  | natural {s r : Bytes} {n : Nat} : Whole s n r → Integer s n r
  /-- With a minus sign. -/
  | negative {s r : Bytes} {n : Nat} : Whole s n r → n ≠ 0 → Integer (minus :: s) (-n) r

/-- A text that no number goes on with. -/
def EndsNumber (r : Bytes) : Prop :=
  ∀ b ∈ r.head?, isDigit b = false ∧ b ≠ point ∧ isExponentMark b = false

/-! ## Values of any shape -/

/-- A key that is only skipped, with the blanks around it and the colon. -/
inductive SkippedKey : Bytes → Bytes → Prop
  | mk {s s₁ s₂ r : Bytes} : Blanks s (quote :: s₁) → Skipped s₁ s₂ →
    Blanks s₂ (colon :: r) →
    SkippedKey s r

/-- The symbols of the grammar. -/
inductive Symbol where
  /-- A value. -/
  | value
  /-- What stands between the commas of a container. -/
  | item (c : Container)
  /-- At least one item, and commas between them. -/
  | items (c : Container)

/-- What the symbols stand for. -/
inductive Derives : Symbol → Bytes → Bytes → Prop
  /-- One of the three words. -/
  | word {w : String} (r : Bytes) : w ∈ ["null", "true", "false"] →
    Derives .value (ascii w ++ r) r
  /-- A number. -/
  | number {s r : Bytes} : Numeral s r → Derives .value s r
  /-- A string. -/
  | text {s r : Bytes} : Skipped s r → Derives .value (quote :: s) r
  /-- An empty container. -/
  | empty (c : Container) {s r : Bytes} : Blanks s (c.closing :: r) →
    Derives .value (c.opening :: s) r
  /-- A container with items. -/
  | filled (c : Container) {s r : Bytes} : Derives (.items c) s (c.closing :: r) →
    Derives .value (c.opening :: s) r
  /-- An item of an array is a value. -/
  | element {s s₁ r : Bytes} : Blanks s s₁ → Derives .value s₁ r →
    Derives (.item .list) s r
  /-- An item of an object is a key and a value. -/
  | member {s s₁ s₂ r : Bytes} : SkippedKey s s₁ → Blanks s₁ s₂ →
    Derives .value s₂ r →
    Derives (.item .object) s r
  /-- The last item. -/
  | last {c : Container} {s s₁ r : Bytes} : Derives (.item c) s s₁ → Blanks s₁ r →
    Derives (.items c) s r
  /-- An item and more of them. -/
  | more {c : Container} {s s₁ s₂ r : Bytes} : Derives (.item c) s s₁ →
    Blanks s₁ (comma :: s₂) →
    Derives (.items c) s₂ r → Derives (.items c) s r

/-! ## Where the readers stop -/

/-- A reader passes over the blanks at the front to the last of them. -/
theorem blanks_skipBlanks (s : Bytes) : Blanks s (skipBlanks s) := by
  induction s with
  | nil => exact .done []
  | cons b s ih =>
      cases hb : isBlank b with
      | true =>
          rw [skipBlanks, List.dropWhile_cons_of_pos hb]
          exact .more hb ih
      | false =>
          rw [skipBlanks, List.dropWhile_cons_of_neg (by simp [hb])]
          exact .done _

theorem Blanks.skipBlanks_eq {s r : Bytes} (h : Blanks s r) : skipBlanks s = skipBlanks r := by
  induction h with
  | done => rfl
  | more hb _ ih => rw [skipBlanks, List.dropWhile_cons_of_pos hb, ← skipBlanks, ih]

theorem skipBlanks_cons {b : UInt8} (hb : isBlank b = false) (r : Bytes) :
    skipBlanks (b :: r) = b :: r := by
  rw [skipBlanks, List.dropWhile_cons_of_neg (by simp [hb])]

/-- Behind some blanks a reader finds the byte that is none. -/
theorem Blanks.skipBlanks_cons {s r : Bytes} {b : UInt8} (h : Blanks s (b :: r))
    (hb : isBlank b = false) : skipBlanks s = b :: r := by
  rw [h.skipBlanks_eq, Grammar.skipBlanks_cons hb]

theorem blanks_of_skipBlanks {s r : Bytes} (h : skipBlanks s = r) : Blanks s r :=
  h ▸ blanks_skipBlanks s

theorem Blanks.trans {s s' r : Bytes} (h : Blanks s s') (h' : Blanks s' r) : Blanks s r := by
  induction h with
  | done => exact h'
  | more hb _ ih => exact .more hb (ih h')

end Grammar

end Lineage.Json

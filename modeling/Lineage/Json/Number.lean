import Lineage.Json.Token

/-!
# Numbers of JSON

A *numeral* is a number as it is written: a sign, the digits of its whole part, and perhaps digits
of a fraction and of an exponent (`Numeral`, read by `readNumeral`).  Its *value* is an integer when
it has neither fraction nor exponent, is not a negative zero, and fits 64 bits, signed or unsigned.
Otherwise it is a double (`Numeral.value`).

A double starts from the digits that fit 64 bits.  Further digits of the whole part raise the power
of ten and further digits of the fraction are dropped.  The significand is then scaled by the power
of ten, through steps of `10^308` while the power is too low for one step.  The significand and the
power are rounded to doubles first, so `exceedsDouble` knows exactly when their product is infinite.
-/

namespace Lineage.Json

/-! ## The written form -/

/-- A number as it is written. -/
structure Numeral where
  /-- Whether it starts with a minus sign. -/
  negative : Bool
  /-- The digits before the point. -/
  whole : List Nat
  /-- The digits after the point, if there is one. -/
  fraction : Option (List Nat)
  /-- Whether the exponent has a minus sign, and its digits, if there is one. -/
  exponent : Option (Bool × List Nat)
  deriving DecidableEq, Repr

/-- The digits at the front. -/
def leadingDigits (s : Bytes) : List Nat := (s.takeWhile isDigit).map digitValue

/-- The text behind the digits at the front. -/
def skipDigits (s : Bytes) : Bytes := s.dropWhile isDigit

/-- Whether a byte marks an exponent. -/
def isExponentMark (b : UInt8) : Bool := b == 0x65 || b == 0x45

/-- The byte before a fraction. -/
abbrev point : UInt8 := 0x2e

/-- The plus sign. -/
abbrev plus : UInt8 := 0x2b

/-- Reads the digits of the whole part.  A zero at the front stands alone. -/
def readWhole (atEnd : Cause) : Bytes → Read (List Nat)
  | [] => .error (.here atEnd [])
  | b :: r =>
    if b = 0x30 then
      match r with
      | [] => .ok ([0], [])
      | d :: r' => if isDigit d then .error (.next .invalidNumber (d :: r')) else .ok ([0], d :: r')
    else if isDigit b then .ok (digitValue b :: leadingDigits r, skipDigits r)
    else .error (.here .invalidNumber r)

/-- Reads a point and at least one digit behind it, if there is a point. -/
def readFraction (atEnd : Cause) : Bytes → Read (Option (List Nat))
  | [] => .ok (none, [])
  | b :: r =>
    if b = point then
      match r with
      | [] => .error (.next atEnd [])
      | d :: r' =>
        if isDigit d then .ok (some (leadingDigits (d :: r')), skipDigits (d :: r'))
        else .error (.next .invalidNumber (d :: r'))
    else .ok (none, b :: r)

/-- Reads the sign of an exponent, if there is one. -/
def readExponentSign : Bytes → Bool × Bytes
  | [] => (false, [])
  | b :: r => if b = plus then (false, r) else if b = minus then (true, r) else (false, b :: r)

/-- Reads an exponent with at least one digit, if there is a mark. -/
def readExponent (atEnd : Cause) : Bytes → Read (Option (Bool × List Nat))
  | [] => .ok (none, [])
  | b :: r =>
    if isExponentMark b then
      match readExponentSign r with
      | (_, []) => .error (.here atEnd [])
      | (negative, d :: r') =>
        if isDigit d then .ok (some (negative, leadingDigits (d :: r')), skipDigits (d :: r'))
        else .error (.here .invalidNumber r')
    else .ok (none, b :: r)

/-- Whether the text starts with a minus sign, and the text behind it. -/
def readSign : Bytes → Bool × Bytes
  | [] => (false, [])
  | b :: r => if b = minus then (true, r) else (false, b :: r)

/-- Reads a numeral.  `atEnd` is the cause where the text ends and a digit has to follow. -/
def readNumeral (atEnd : Cause) (s : Bytes) : Except Fault (Numeral × Bytes) := do
  let (negative, s) := readSign s
  let (whole, s) ← readWhole atEnd s
  let (fraction, s) ← readFraction atEnd s
  let (exponent, s) ← readExponent atEnd s
  .ok (⟨negative, whole, fraction, exponent⟩, s)

theorem length_skipDigits_le (s : Bytes) : (skipDigits s).length ≤ s.length :=
  (List.dropWhile_sublist _).length_le

theorem length_readWhole_lt {c : Cause} {s r : Bytes} {ds : List Nat}
    (h : readWhole c s = .ok (ds, r)) : r.length < s.length := by
  unfold readWhole at h
  grind [length_skipDigits_le]

theorem length_readFraction_le {c : Cause} {s r : Bytes} {ds : Option (List Nat)}
    (h : readFraction c s = .ok (ds, r)) : r.length ≤ s.length := by
  unfold readFraction at h
  grind [length_skipDigits_le]

theorem length_readExponentSign_le (s : Bytes) : (readExponentSign s).2.length ≤ s.length := by
  cases s <;> grind [readExponentSign]

theorem length_readExponent_le {c : Cause} {s r : Bytes} {e : Option (Bool × List Nat)}
    (h : readExponent c s = .ok (e, r)) : r.length ≤ s.length := by
  unfold readExponent at h
  grind [length_skipDigits_le, length_readExponentSign_le]

theorem length_readSign_le (s : Bytes) : (readSign s).2.length ≤ s.length := by
  cases s <;> grind [readSign]

theorem length_readNumeral_lt {c : Cause} {s r : Bytes} {n : Numeral}
    (h : readNumeral c s = .ok (n, r)) : r.length < s.length := by
  have h₀ := length_readSign_le s
  simp only [readNumeral, bind, Except.bind] at h
  split at h
  · simp at h
  · rename_i h₁
    have := length_readWhole_lt h₁
    split at h
    · simp at h
    · rename_i h₂
      have := length_readFraction_le h₂
      split at h
      · simp at h
      · rename_i h₃
        have := length_readExponent_le h₃
        simp only [Except.ok.injEq, Prod.mk.injEq] at h
        rw [← h.2]
        omega

/-! ## The value -/

/-- The value of a numeral. -/
inductive Number where
  /-- An integer from `-2^63` to `2^64 - 1`. -/
  | integer (n : Int)
  /-- Any other number, as a double. -/
  | float (x : Float)

/-- Takes digits while the number they make is at most `bound`, and returns the others. -/
def takeDigits (bound : Nat) : Nat → List Nat → Nat × List Nat
  | n, [] => (n, [])
  | n, d :: ds => if n * 10 + d ≤ bound then takeDigits bound (n * 10 + d) ds else (n, d :: ds)

/-- A number with all but its 53 leading binary digits rounded away, to an even one halfway. -/
def round53 (n : Nat) : Nat :=
  let dropped := n.log2 - 52
  let unit := 1 <<< dropped
  let kept := n / unit
  if unit < 2 * (n % unit) ∨ unit = 2 * (n % unit) ∧ kept % 2 = 1 then
    (kept + 1) * unit
  else kept * unit

/-- The least number that is rounded to infinity. -/
def doubleLimit : Nat := 1 <<< 1024 - 1 <<< 970

/-- Whether a significand times a power of ten is too great for a double. -/
def exceedsDouble (significand : Nat) (e : Int) : Bool :=
  significand ≠ 0 &&
    (308 < e || 0 ≤ e && doubleLimit ≤ round53 significand * round53 (Nat.pow 10 e.toNat))

/-- A power of ten as a double. -/
def powerOfTen (e : Nat) : Float := Float.ofScientific 1 false e

/-- A double times a power of ten that is not too great for it. -/
def scale (x : Float) (e : Int) : Float :=
  if e < -308 then
    if x == 0.0 then x else scale (x / powerOfTen 308) (e + 308)
  else if 308 < e then x
  else if 0 ≤ e then x * powerOfTen e.toNat
  else x / powerOfTen (-e).toNat
termination_by (-e).toNat

/-- The greatest number of 64 bits. -/
abbrev maxWord64 : Nat := UInt64.size - 1

/-- The greatest exponent that is counted. -/
abbrev maxExponent : Nat := 0x7fffffff

/-- A double with a sign. -/
def signedFloat (negative : Bool) (x : Float) : Float := if negative then -x else x

/-- The value of a numeral, or the number of its last digits that are unread when it turns out to be
out of range. -/
def Numeral.value (n : Numeral) : Except Nat Number :=
  let (wholeDigits, dropped) := takeDigits maxWord64 0 n.whole
  let (digits, ignored) := takeDigits maxWord64 wholeDigits (n.fraction.getD [])
  let power : Int := dropped.length - ((n.fraction.getD []).length - ignored.length : Nat)
  let float (e : Int) : Except Nat Number :=
    if exceedsDouble digits e then .error 0
    else .ok (.float (signedFloat n.negative (scale digits.toUInt64.toFloat e)))
  match n.fraction, n.exponent with
  | none, none =>
    if !dropped.isEmpty then float power
    else if !n.negative then .ok (.integer digits)
    else if 0 < digits ∧ digits ≤ 0x8000000000000000 then .ok (.integer (-digits))
    else .ok (.float (-digits.toUInt64.toFloat))
  | _, none => float power
  | _, some (negative, ds) =>
    match takeDigits maxExponent 0 ds with
    | (e, []) => float (if negative then power - e else power + e)
    | (_, _ :: unread) =>
      if digits ≠ 0 ∧ !negative then .error unread.length
      else .ok (.float (signedFloat n.negative 0.0))

/-- Reads a number. -/
def readNumber (s : Bytes) : Except Fault (Number × Bytes) := do
  let (n, r) ← readNumeral .endOfValue s
  match n.value with
  | .ok v => .ok (v, r)
  | .error unread => .error ⟨.numberOutOfRange, r.length + unread, 0⟩

/-- What a number is called where another type is wanted. -/
def Number.found : Number → Found
  | .integer n => .integer n
  | .float x => .float x

theorem length_readNumber_lt {s r : Bytes} {v : Number} (h : readNumber s = .ok (v, r)) :
    r.length < s.length := by
  simp only [readNumber, bind, Except.bind] at h
  split at h
  · simp at h
  · rename_i h₁
    have := length_readNumeral_lt h₁
    split at h <;> simp_all

end Lineage.Json

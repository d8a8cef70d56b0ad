import Lineage.Json.Skip

/-!
# Values of a wanted type

Readers that know which type a value must have.  A value of another type is still read as far as its
kind needs, so that a fault inside it comes first, and then reported with what was found and what
was expected (`wrongType`).  Arrays and objects are reported by their opening byte alone.
-/

namespace Lineage.Json

/-- Reads the value at the front far enough to name it. -/
def readFound : Bytes → Read Found
  | [] => .error (.next .endOfValue [])
  | b :: r =>
    if b = 0x6e then
      match readWord (ascii "ull") r with
      | .error f => .error f
      | .ok r => .ok (.null, r)
    else if b = 0x74 then
      match readWord (ascii "rue") r with
      | .error f => .error f
      | .ok r => .ok (.boolean true, r)
    else if b = 0x66 then
      match readWord (ascii "alse") r with
      | .error f => .error f
      | .ok r => .ok (.boolean false, r)
    else if b = quote then
      match readText r with
      | .error f => .error f
      | .ok (t, r) => .ok (.text t, r)
    else if b = minus ∨ isDigit b then
      match readNumber (b :: r) with
      | .error f => .error f
      | .ok (n, r) => .ok (n.found, r)
    else if b = openBracket then .ok (.sequence, b :: r)
    else if b = openBrace then .ok (.map, b :: r)
    else .error (.next .expectedValue (b :: r))

/-- The fault of a value that is not of the expected type. -/
def wrongType (expected : String) (s : Bytes) : Fault :=
  match readFound s with
  | .error f => f
  | .ok (found, r) => .here (.mismatch (.wrongType found expected)) r

/-- Reads a string. -/
def readString (expected : String) (s : Bytes) : Read String :=
  match skipBlanks s with
  | [] => .error (.next .endOfValue [])
  | b :: r => if b = quote then readText r else .error (wrongType expected (b :: r))

/-- Reads an integer that passes a test. -/
def readInteger (expected : String) (fits : Int → Bool) (s : Bytes) : Read Int :=
  match skipBlanks s with
  | [] => .error (.next .endOfValue [])
  | b :: r =>
    if b = minus ∨ isDigit b then
      match readNumber (b :: r) with
      | .error f => .error f
      | .ok (.float x, r) => .error (.here (.mismatch (.wrongType (.float x) expected)) r)
      | .ok (.integer n, r) =>
        if fits n then .ok (n, r) else .error (.here (.mismatch (.wrongValue n expected)) r)
    else .error (wrongType expected (b :: r))

/-- Reads a natural number below a bound. -/
def readNatural (expected : String) (bound : Nat) (s : Bytes) : Read Nat :=
  match readInteger expected (fun n => 0 ≤ n && n < bound) s with
  | .error f => .error f
  | .ok (n, r) => .ok (n.toNat, r)

/-- Reads `true` or `false`. -/
def readBoolean (expected : String) (s : Bytes) : Read Bool :=
  match skipBlanks s with
  | [] => .error (.next .endOfValue [])
  | b :: r =>
    match readFound (b :: r) with
    | .error f => .error f
    | .ok (.boolean v, r) => .ok (v, r)
    | .ok (found, r) => .error (.here (.mismatch (.wrongType found expected)) r)

/-- Reads `null`. -/
def readNull (expected : String) (s : Bytes) : Except Fault Bytes :=
  match skipBlanks s with
  | [] => .error (.next .endOfValue [])
  | b :: r =>
    match readFound (b :: r) with
    | .error f => .error f
    | .ok (.null, r) => .ok r
    | .ok (found, r) => .error (.here (.mismatch (.wrongType found expected)) r)

/-- Checks that nothing but blanks is left. -/
def readEnd (s : Bytes) : Except Fault Unit :=
  match skipBlanks s with
  | [] => .ok ()
  | b :: r => .error (.next .trailingText (b :: r))

/-- The value of a whole text. -/
def decode {α : Type} (read : Bytes → Read α) (text : Bytes) : Except Fault α :=
  match read text with
  | .error f => .error f
  | .ok (a, r) =>
    match readEnd r with
    | .error f => .error f
    | .ok () => .ok a

theorem length_readString_le {e : String} {s r : Bytes} {t : String}
    (h : readString e s = .ok (t, r)) : r.length ≤ s.length := by
  have h₀ := length_skipBlanks_le s
  unfold readString at h
  grind [→ length_readText_lt]

theorem length_readInteger_le {e : String} {p : Int → Bool} {s r : Bytes} {n : Int}
    (h : readInteger e p s = .ok (n, r)) : r.length ≤ s.length := by
  have h₀ := length_skipBlanks_le s
  unfold readInteger at h
  grind [→ length_readNumber_lt]

theorem length_readNatural_le {e : String} {m : Nat} {s r : Bytes} {n : Nat}
    (h : readNatural e m s = .ok (n, r)) : r.length ≤ s.length := by
  unfold readNatural at h
  grind [→ length_readInteger_le]

theorem length_readFound_le {s r : Bytes} {v : Found} (h : readFound s = .ok (v, r)) :
    r.length ≤ s.length := by
  unfold readFound at h
  grind [→ length_readWord_le, → length_readText_lt, → length_readNumber_lt]

theorem length_readFound_lt {s r : Bytes} {v : Found} (h : readFound s = .ok (v, r))
    (hs : v ≠ .sequence) (hm : v ≠ .map) : r.length < s.length := by
  unfold readFound at h
  grind [→ length_readWord_le, → length_readText_lt, → length_readNumber_lt]

theorem length_readBoolean_le {e : String} {s r : Bytes} {v : Bool}
    (h : readBoolean e s = .ok (v, r)) : r.length ≤ s.length := by
  have h₀ := length_skipBlanks_le s
  unfold readBoolean at h
  grind [→ length_readFound_le]

theorem length_readNull_le {e : String} {s r : Bytes} (h : readNull e s = .ok r) :
    r.length ≤ s.length := by
  have h₀ := length_skipBlanks_le s
  unfold readNull at h
  grind [→ length_readFound_le]

end Lineage.Json

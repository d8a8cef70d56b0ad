import Lineage.Json.Member

/-!
# Values of any shape

A value that is read before its meaning is known, such as the members of an object whose tag may
come last.  Arrays and objects may be open inside each other up to a limit.  The open ones are kept
in a list of frames, innermost first, each with what it holds so far.

The members of an object keep the order of the text, and repeated keys are kept.
-/

namespace Lineage.Json

/-- A value. -/
inductive Value where
  | null
  | boolean (b : Bool)
  | number (n : Number)
  | text (s : String)
  | list (items : List Value)
  | object (members : List (String × Value))

/-- What a value is called where another type is wanted. -/
def Value.found : Value → Found
  | .null => .null
  | .boolean b => .boolean b
  | .number n => n.found
  | .text s => .text s
  | .list _ => .sequence
  | .object _ => .map

/-- The fault of a value that is not of the expected type. -/
def Value.wrongType (v : Value) (expected : String) : Mismatch := .wrongType v.found expected

/-- A natural number below a bound. -/
def Value.asNatural (expected : String) (bound : Nat) : Value → Except Mismatch Nat
  | .number (.integer n) =>
    if 0 ≤ n ∧ n < bound then .ok n.toNat else .error (.wrongValue n expected)
  | v => .error (v.wrongType expected)

/-- A string. -/
def Value.asText (expected : String) : Value → Except Mismatch String
  | .text s => .ok s
  | v => .error (v.wrongType expected)

/-! ## Reading -/

/-- The number of arrays and objects that may be open inside each other. -/
def maxDepth : Nat := 127

/-- An array or object that is open, with what it holds so far, last one first. -/
inductive Frame where
  /-- An array. -/
  | list (done : List Value)
  /-- An object and the key of the member that is being read. -/
  | object (done : List (String × Value)) (key : String)

/-- The value that was found, unless it is an array or object. -/
def Found.scalar? : Found → Option Value
  | .null => some .null
  | .boolean b => some (.boolean b)
  | .integer n => some (.number (.integer n))
  | .float x => some (.number (.float x))
  | .text t => some (.text t)
  | .sequence | .map | .unitVariant => none

/-- Reads a word, a number or a string. -/
def readScalar (s : Bytes) : Read Value :=
  match readFound s with
  | .error f => .error f
  | .ok (found, r) =>
    match found.scalar? with
    | some v => .ok (v, r)
    | none => .error (.next .expectedValue r)

/-- What follows inside a container: its end, or the place of the next value and the frame for
it. -/
inductive Inside where
  /-- The container ends. -/
  | ended (v : Value)
  /-- A value follows. -/
  | more (frame : Frame)

/-- Reads on in an array that holds some values. -/
def insideList (done : List Value) (s : Bytes) : Read Inside :=
  match moreElements done.isEmpty s with
  | .error f => .error f
  | .ok (true, r) => .ok (.more (.list done), r)
  | .ok (false, r) =>
    match endElements r with
    | .error f => .error f
    | .ok r => .ok (.ended (.list done.reverse), r)

/-- Reads on in an object that holds some members. -/
def insideObject (done : List (String × Value)) (s : Bytes) : Read Inside :=
  match readKey? done.isEmpty s with
  | .error f => .error f
  | .ok (none, r) => .ok (.ended (.object done.reverse), r)
  | .ok (some key, r) =>
    match readColon r with
    | .error f => .error f
    | .ok r => .ok (.more (.object done key), r)

/-- Reads on behind a value inside a frame. -/
def Frame.next (v : Value) (s : Bytes) : Frame → Read Inside
  | .list done => insideList (v :: done) s
  | .object done key => insideObject ((key, v) :: done) s

/-- Opens an array or object, or reads a value that holds no others. -/
def openValue (b : UInt8) (r : Bytes) : Read Inside :=
  if b = openBracket then insideList [] r
  else if b = openBrace then insideObject [] r
  else
    match readScalar (b :: r) with
    | .error f => .error f
    | .ok (v, r) => .ok (.ended v, r)

theorem length_readScalar_lt {s r : Bytes} {v : Value} (h : readScalar s = .ok (v, r)) :
    r.length < s.length := by
  unfold readScalar at h
  split at h
  · simp at h
  · rename_i found r' hf
    split at h
    · rename_i hv
      have := length_readFound_lt hf (by rintro rfl; simp [Found.scalar?] at hv)
        (by rintro rfl; simp [Found.scalar?] at hv)
      simp_all
    · simp at h

theorem length_insideList_le {done : List Value} {s r : Bytes} {i : Inside}
    (h : insideList done s = .ok (i, r)) :
    r.length ≤ s.length ∧ (done ≠ [] → r.length < s.length) := by
  unfold insideList at h
  grind [→ length_moreElements_le, → length_endElements_lt]

theorem length_insideObject_lt {done : List (String × Value)} {s r : Bytes} {i : Inside}
    (h : insideObject done s = .ok (i, r)) : r.length < s.length := by
  unfold insideObject at h
  grind [→ length_readKey?_lt, → length_readColon_lt]

theorem Frame.length_next_lt {v : Value} {s r : Bytes} {frame : Frame} {i : Inside}
    (h : frame.next v s = .ok (i, r)) : r.length < s.length := by
  cases frame with
  | list done => exact (length_insideList_le h).2 (by simp)
  | object done key => exact length_insideObject_lt h

theorem length_openValue_lt {b : UInt8} {s r : Bytes} {i : Inside}
    (h : openValue b s = .ok (i, r)) : r.length < s.length + 1 := by
  unfold openValue at h
  grind [→ length_insideList_le, → length_insideObject_lt, → length_readScalar_lt]

/-- Whether a byte opens an array or object. -/
def isOpening (b : UInt8) : Bool := b == openBracket || b == openBrace

/-- Reads the rest of the open containers, where `v` is the value that has just ended, if one has.
At most `room` containers may be open. -/
def readValueFrom (room : Nat) (frames : List Frame) (v : Option Value) (s : Bytes) : Read Value :=
  match v with
  | none =>
    match _h : skipBlanks s with
    | [] => .error (.next .endOfValue [])
    | b :: r =>
      if isOpening b && decide (room ≤ frames.length) then .error (.next .tooDeep (b :: r))
      else
        match _h₁ : openValue b r with
        | .error f => .error f
        | .ok (.ended v, r) => readValueFrom room frames (some v) r
        | .ok (.more frame, r) => readValueFrom room (frame :: frames) none r
  | some v =>
    match frames with
    | [] => .ok (v, s)
    | frame :: outer =>
      match _h : frame.next v s with
      | .error f => .error f
      | .ok (.ended v, r) => readValueFrom room outer (some v) r
      | .ok (.more frame, r) => readValueFrom room (frame :: outer) none r
termination_by s.length
decreasing_by
  · have h₂ := length_skipBlanks_le s; rw [_h] at h₂
    have := length_openValue_lt _h₁; simp at h₂; omega
  · have h₂ := length_skipBlanks_le s; rw [_h] at h₂
    have := length_openValue_lt _h₁; simp at h₂; omega
  · exact Frame.length_next_lt _h
  · exact Frame.length_next_lt _h

/-- Reads a value inside `outer` open containers. -/
def readValue (outer : Nat) (s : Bytes) : Read Value := readValueFrom (maxDepth - outer) [] none s

theorem length_readValueFrom_le {room : Nat} {frames : List Frame} {v : Option Value}
    {s r : Bytes} {w : Value} (h : readValueFrom room frames v s = .ok (w, r)) :
    r.length ≤ s.length := by
  fun_induction readValueFrom room frames v s with
  | case1 => simp at h
  | case2 => simp at h
  | case3 => simp at h
  | case4 frames s b r₁ hs _ v r₂ ho ih =>
    have h₂ := length_skipBlanks_le s; rw [hs] at h₂
    have := length_openValue_lt ho
    have := ih h
    simp at h₂; omega
  | case5 frames s b r₁ hs _ frame r₂ ho ih =>
    have h₂ := length_skipBlanks_le s; rw [hs] at h₂
    have := length_openValue_lt ho
    have := ih h
    simp at h₂; omega
  | case6 => simp_all
  | case7 => simp at h
  | case8 s v frame outer w' r₁ hn ih =>
    have := Frame.length_next_lt hn
    have := ih h
    omega
  | case9 s v frame outer w' r₁ hn ih =>
    have := Frame.length_next_lt hn
    have := ih h
    omega

theorem length_readValue_le {outer : Nat} {s r : Bytes} {v : Value}
    (h : readValue outer s = .ok (v, r)) : r.length ≤ s.length :=
  length_readValueFrom_le h

end Lineage.Json

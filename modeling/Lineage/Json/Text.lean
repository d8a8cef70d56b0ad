import Lineage.Json.Token

/-!
# Strings of JSON

A string stands between double quotes.  `readText` decodes it: escapes stand for characters, an
escaped surrogate needs its partner, and the decoded bytes have to be UTF-8.  `skipText` only finds
the end of a string.  It checks that escapes are among the known ones and asks for neither partners
nor UTF-8.  The two also differ in the place of a control character: the decoder has read it, the
skipper has not.

Both are called behind the opening quote, and the rest they return is shorter than their input.
-/

namespace Lineage.Json

/-! ## Escapes -/

/-- The characters of the escapes with one letter. -/
def shortEscape? (b : UInt8) : Option Char :=
  if b = quote then some '"'
  else if b = backslash then some '\\'
  else if b = 0x2f then some '/'
  else if b = 0x62 then some '\x08'
  else if b = 0x66 then some '\x0c'
  else if b = 0x6e then some '\n'
  else if b = 0x72 then some '\r'
  else if b = 0x74 then some '\t'
  else none

/-- The letter of an escape with four hexadecimal digits. -/
abbrev hexLetter : UInt8 := 0x75

/-- Reads the four digits of an escape. -/
def readHex : Bytes → Read Nat
  | a :: b :: c :: d :: r =>
    match hexValue? a, hexValue? b, hexValue? c, hexValue? d with
    | some a, some b, some c, some d => .ok (((a * 16 + b) * 16 + c) * 16 + d, r)
    | _, _, _, _ => .error (.here .invalidEscape r)
  | _ => .error (.here .endOfString [])

/-- Whether a code unit is the first half of a pair. -/
def isLead (n : Nat) : Bool := 0xd800 ≤ n && n ≤ 0xdbff

/-- Whether a code unit is the second half of a pair. -/
def isTrail (n : Nat) : Bool := 0xdc00 ≤ n && n ≤ 0xdfff

/-- The character of a pair. -/
def pairChar (lead trail : Nat) : Char :=
  Char.ofNat (0x10000 + (lead - 0xd800) * 0x400 + (trail - 0xdc00))

/-- Reads the second half of a pair, which is an escape of its own. -/
def readTrail (lead : Nat) : Bytes → Read Char
  | [] => .error (.here .endOfString [])
  | b :: r =>
    if b = backslash then
      match r with
      | [] => .error (.here .endOfString [])
      | u :: r =>
        if u = hexLetter then
          match readHex r with
          | .error f => .error f
          | .ok (trail, r) =>
            if isTrail trail then .ok (pairChar lead trail, r)
            else .error (.here .loneSurrogate r)
        else .error (.here .brokenPair r)
    else .error (.here .brokenPair r)

/-- Reads the character of an escape, behind its backslash. -/
def readEscape : Bytes → Read Char
  | [] => .error (.here .endOfString [])
  | b :: r =>
    if b = hexLetter then
      match readHex r with
      | .error f => .error f
      | .ok (n, r) =>
        if isTrail n then .error (.here .loneSurrogate r)
        else if isLead n then readTrail n r
        else .ok (Char.ofNat n, r)
    else
      match shortEscape? b with
      | some c => .ok (c, r)
      | none => .error (.here .invalidEscape r)

/-- Skips an escape, behind its backslash. -/
def skipEscape : Bytes → Except Fault Bytes
  | [] => .error (.here .endOfString [])
  | b :: r =>
    if b = hexLetter then
      match readHex r with
      | .error f => .error f
      | .ok (_, r) => .ok r
    else
      match shortEscape? b with
      | some _ => .ok r
      | none => .error (.here .invalidEscape r)

theorem length_readHex_lt {s r : Bytes} {n : Nat} (h : readHex s = .ok (n, r)) :
    r.length < s.length := by
  unfold readHex at h
  split at h
  · split at h
    · simp_all; omega
    · simp at h
  · simp at h

theorem length_readTrail_lt {lead : Nat} {s r : Bytes} {c : Char}
    (h : readTrail lead s = .ok (c, r)) : r.length < s.length := by
  unfold readTrail at h
  grind [→ length_readHex_lt]

theorem length_readEscape_lt {s r : Bytes} {c : Char} (h : readEscape s = .ok (c, r)) :
    r.length < s.length := by
  unfold readEscape at h
  grind [→ length_readHex_lt, → length_readTrail_lt]

theorem length_skipEscape_lt {s r : Bytes} (h : skipEscape s = .ok r) : r.length < s.length := by
  unfold skipEscape at h
  grind [→ length_readHex_lt]

/-! ## Decoding -/

/-- The bytes of the string at the front, where `done` holds those before it in reverse. -/
def readTextBytes (done : Bytes) (s : Bytes) : Read Bytes :=
  match s with
  | [] => .error (.here .endOfString [])
  | b :: r =>
    if b = quote then .ok (done.reverse, r)
    else if b = backslash then
      match _h : readEscape r with
      | .error f => .error f
      | .ok (c, r') => readTextBytes ((String.utf8EncodeChar c).reverse ++ done) r'
    else if b < 0x20 then .error (.here .controlCharacter r)
    else readTextBytes (b :: done) r
termination_by s.length
decreasing_by
  · have := length_readEscape_lt _h; simp; omega
  · simp

theorem length_readTextBytes_lt {done s t r : Bytes} (h : readTextBytes done s = .ok (t, r)) :
    r.length < s.length := by
  fun_induction readTextBytes done s with
  | case1 => simp at h
  | case2 => simp_all
  | case3 => simp at h
  | case4 done r₁ c r₂ he _ ih =>
    have := length_readEscape_lt he
    have := ih h
    simp; omega
  | case5 => simp at h
  | case6 done b r₁ _ _ _ ih => have := ih h; simp; omega

/-- The length of the longest run of whole characters in `bytes` from index `i` on, plus `i`. -/
def validLength (bytes : ByteArray) (i : Nat) : Nat → Nat
  | 0 => i
  | fuel + 1 =>
    match bytes.utf8DecodeChar? i with
    | none => i
    | some c => validLength bytes (i + c.utf8Size) fuel

/-- Reads a string behind its opening quote.  If its bytes are not UTF-8 the fault is shown as many
columns before its end as there are bytes behind the last whole character. -/
def readText (s : Bytes) : Read String :=
  match readTextBytes [] s with
  | .error f => .error f
  | .ok (t, r) =>
    let bytes := t.toByteArray
    match String.fromUTF8? bytes with
    | some text => .ok (text, r)
    | none => .error ⟨.notUtf8, r.length, bytes.size - validLength bytes 0 bytes.size⟩

theorem length_readText_lt {s r : Bytes} {t : String} (h : readText s = .ok (t, r)) :
    r.length < s.length := by
  unfold readText at h
  split at h
  · simp at h
  · rename_i h'
    have := length_readTextBytes_lt h'
    dsimp only at h
    split at h <;> simp_all

/-! ## Skipping -/

/-- The text behind the string at the front. -/
def skipText (s : Bytes) : Except Fault Bytes :=
  match s with
  | [] => .error (.here .endOfString [])
  | b :: r =>
    if b = quote then .ok r
    else if b = backslash then
      match _h : skipEscape r with
      | .error f => .error f
      | .ok r' => skipText r'
    else if b < 0x20 then .error (.here .controlCharacter (b :: r))
    else skipText r
termination_by s.length
decreasing_by
  · have := length_skipEscape_lt _h; simp; omega
  · simp

theorem length_skipText_lt {s r : Bytes} (h : skipText s = .ok r) : r.length < s.length := by
  fun_induction skipText s with
  | case1 => simp at h
  | case2 => simp_all
  | case3 => simp at h
  | case4 r₁ r₂ he _ ih =>
    have := length_skipEscape_lt he
    have := ih h
    simp; omega
  | case5 => simp at h
  | case6 b r₁ _ _ _ ih => have := ih h; simp; omega

end Lineage.Json

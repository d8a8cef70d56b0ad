import Lineage.Json.Number
import Lineage.Json.Text

/-!
# Skipping a value

`skipValue` finds the end of a value of any shape and checks its grammar on the way.  The arrays and
objects that are open around the place reached are kept in a list, innermost first, so nesting is
bounded by nothing but the text.

The loop `skipFrom` is in one of three phases.  A value has to follow, or a member of the innermost
object has to follow, or a value has just ended.  Each round of the loop reads at least one byte.
-/

namespace Lineage.Json

/-- An array or object that is open. -/
inductive Container where
  | list
  | object
  deriving DecidableEq, Repr

/-- The cause where the text ends inside a container. -/
def Container.cutShort : Container → Cause
  | .list => .endOfList
  | .object => .endOfObject

/-- The byte that closes a container. -/
def Container.closing : Container → UInt8
  | .list => closeBracket
  | .object => closeBrace

/-- The cause where neither a comma nor the closing byte follows. -/
def Container.unseparated : Container → Cause
  | .list => .expectedCommaOrBracket
  | .object => .expectedCommaOrBrace

/-- What has to follow. -/
inductive Phase where
  /-- A value. -/
  | value
  /-- A key, a colon and a value. -/
  | member
  /-- A comma, the end of the innermost container, or nothing. -/
  | separator
  deriving DecidableEq, Repr

/-- What has to follow inside a container that does not end here. -/
def Container.inside : Container → Phase
  | .list => .value
  | .object => .member

/-- Skips a word or a number or a string, whose first byte is `b`. -/
def skipScalar (b : UInt8) (r : Bytes) : Except Fault Bytes :=
  if b = 0x6e then readWord (ascii "ull") r
  else if b = 0x74 then readWord (ascii "rue") r
  else if b = 0x66 then readWord (ascii "alse") r
  else if b = quote then skipText r
  else if b = minus ∨ isDigit b then
    match readNumeral .invalidNumber (b :: r) with
    | .error f => .error f
    | .ok (_, r) => .ok r
  else .error (.next .expectedValue (b :: r))

/-- The container that a byte opens. -/
def Container.ofOpening? (b : UInt8) : Option Container :=
  if b = openBracket then some .list else if b = openBrace then some .object else none

/-- Skips a key and the colon behind it. -/
def skipKey (s : Bytes) : Except Fault Bytes :=
  match skipBlanks s with
  | [] => .error (.next .endOfObject [])
  | b :: r =>
    if b = quote then
      match skipText r with
      | .error f => .error f
      | .ok r =>
        match skipBlanks r with
        | [] => .error (.next .endOfObject [])
        | b :: r => if b = colon then .ok r else .error (.next .expectedColon (b :: r))
    else .error (.next .keyNotString (b :: r))

theorem length_skipScalar_lt {b : UInt8} {r t : Bytes} (h : skipScalar b r = .ok t) :
    t.length < r.length + 1 := by
  unfold skipScalar at h
  grind [→ length_readWord_le, → length_skipText_lt, → length_readNumeral_lt]

theorem length_skipKey_lt {s t : Bytes} (h : skipKey s = .ok t) : t.length < s.length := by
  have h₀ := length_skipBlanks_le s
  unfold skipKey at h
  split at h
  · simp at h
  · rename_i b r hs
    rw [hs] at h₀
    split at h
    · split at h
      · simp at h
      · rename_i r₁ h₁
        have h₁ := length_skipText_lt h₁
        have h₂ := length_skipBlanks_le r₁
        split at h
        · simp at h
        · rename_i hr
          rw [hr] at h₂
          split at h
          · simp only [Except.ok.injEq] at h
            subst h
            simp at h₀ h₂
            omega
          · simp at h
    · simp at h

/-- Skips what has to follow and all that is left of the open containers. -/
def skipFrom (containers : List Container) (phase : Phase) (s : Bytes) : Except Fault Bytes :=
  match phase with
  | .value =>
    match _h : skipBlanks s with
    | [] => .error (.next .endOfValue [])
    | b :: r =>
      match Container.ofOpening? b with
      | none =>
        match _h₁ : skipScalar b r with
        | .error f => .error f
        | .ok r' => skipFrom containers .separator r'
      | some c =>
        match _h₁ : skipBlanks r with
        | [] => .error (.next c.cutShort [])
        | b' :: r' =>
          if b' = c.closing then skipFrom containers .separator r'
          else skipFrom (c :: containers) c.inside (b' :: r')
  | .member =>
    match _h : skipKey s with
    | .error f => .error f
    | .ok r => skipFrom containers .value r
  | .separator =>
    match containers with
    | [] => .ok s
    | c :: outer =>
      match _h : skipBlanks s with
      | [] => .error (.next c.cutShort [])
      | b :: r =>
        if b = comma then skipFrom (c :: outer) c.inside r
        else if b = c.closing then skipFrom outer .separator r
        else .error (.next c.unseparated (b :: r))
termination_by s.length
decreasing_by
  · have h₂ := length_skipBlanks_le s; rw [_h] at h₂
    have := length_skipScalar_lt _h₁; simp at h₂; omega
  · have h₂ := length_skipBlanks_le s; rw [_h] at h₂
    have h₃ := length_skipBlanks_le r; rw [_h₁] at h₃; simp at h₂ h₃; omega
  · have h₂ := length_skipBlanks_le s; rw [_h] at h₂
    have h₃ := length_skipBlanks_le r; rw [_h₁] at h₃; simp at h₂ h₃ ⊢; omega
  · exact length_skipKey_lt _h
  · have h₂ := length_skipBlanks_le s; rw [_h] at h₂; simp at h₂; omega
  · have h₂ := length_skipBlanks_le s; rw [_h] at h₂; simp at h₂; omega

/-- The text behind the value at the front. -/
def skipValue (s : Bytes) : Except Fault Bytes := skipFrom [] .value s

theorem length_skipFrom_le {cs : List Container} {p : Phase} {s t : Bytes}
    (h : skipFrom cs p s = .ok t) : t.length ≤ s.length := by
  fun_induction skipFrom cs p s with
  | case1 => simp at h
  | case2 => simp at h
  | case3 cs s b r hs _ r' hr ih =>
    have h₂ := length_skipBlanks_le s; rw [hs] at h₂
    have := length_skipScalar_lt hr
    have := ih h
    simp at h₂; omega
  | case4 => simp at h
  | case5 cs s b r hs c _ r' hr ih =>
    have h₂ := length_skipBlanks_le s; rw [hs] at h₂
    have h₃ := length_skipBlanks_le r; rw [hr] at h₃
    have := ih h
    simp at h₂ h₃; omega
  | case6 cs s b r hs c _ b' r' hr _ ih =>
    have h₂ := length_skipBlanks_le s; rw [hs] at h₂
    have h₃ := length_skipBlanks_le r; rw [hr] at h₃
    have := ih h
    simp at this h₂ h₃; omega
  | case7 => simp at h
  | case8 cs s r hr ih =>
    have := length_skipKey_lt hr
    have := ih h
    omega
  | case9 => simp_all
  | case10 => simp at h
  | case11 s c outer r hs ih =>
    have h₂ := length_skipBlanks_le s; rw [hs] at h₂
    have := ih h
    simp at h₂; omega
  | case12 s c outer r hs _ ih =>
    have h₂ := length_skipBlanks_le s; rw [hs] at h₂
    have := ih h
    simp at h₂; omega
  | case13 => simp at h

theorem length_skipValue_le {s t : Bytes} (h : skipValue s = .ok t) : t.length ≤ s.length :=
  length_skipFrom_le h

end Lineage.Json

import Lineage.Json.Typed

/-!
# Members of an object and elements of an array

An object is read member by member behind its opening brace.  `readKey?` finds the next key or the
closing brace, `readColon` the colon behind a key, and `foldMembers` runs a step function over all
members.  The step gets the key and the text behind it, before the colon, so that it can refuse a
key before its value is looked at.

`moreElements` finds the next element of an array or its closing bracket, and `endElements` refuses
elements that no one asked for.
-/

namespace Lineage.Json

/-! ## Objects -/

/-- The text at the key of the next member, or nothing at the closing brace.  `first` says that no
member came before. -/
def nextMember (first : Bool) (s : Bytes) : Except Fault (Option Bytes × Bytes) :=
  match skipBlanks s with
  | [] => .error (.next .endOfObject [])
  | b :: r =>
    if b = closeBrace then .ok (none, r)
    else if first then .ok (some (b :: r), b :: r)
    else if b = comma then
      match skipBlanks r with
      | [] => .error (.next .endOfValue [])
      | b :: r =>
        if b = closeBrace then .error (.next .trailingComma (b :: r))
        else .ok (some (b :: r), b :: r)
    else .error (.next .expectedCommaOrBrace (b :: r))

/-- Reads the key of the next member, or the closing brace. -/
def readKey? (first : Bool) (s : Bytes) : Read (Option String) :=
  match nextMember first s with
  | .error f => .error f
  | .ok (none, r) => .ok (none, r)
  | .ok (some [], _) => .error (.next .endOfValue [])
  | .ok (some (b :: r), _) =>
    if b = quote then
      match readText r with
      | .error f => .error f
      | .ok (key, r) => .ok (some key, r)
    else .error (.next .keyNotString (b :: r))

/-- Reads the colon behind a key. -/
def readColon (s : Bytes) : Except Fault Bytes :=
  match skipBlanks s with
  | [] => .error (.next .endOfObject [])
  | b :: r => if b = colon then .ok r else .error (.next .expectedColon (b :: r))

theorem length_nextMember {first : Bool} {s r : Bytes} {t : Option Bytes}
    (h : nextMember first s = .ok (t, r)) :
    (t = none → r.length < s.length) ∧ ∀ u, t = some u → u.length ≤ s.length := by
  have h₀ := length_skipBlanks_le s
  unfold nextMember at h
  split at h
  · simp at h
  · rename_i b r₁ hs
    have h₁ := length_skipBlanks_le r₁
    rw [hs] at h₀
    simp at h₀
    grind

theorem length_readKey?_lt {first : Bool} {s r : Bytes} {k : Option String}
    (h : readKey? first s = .ok (k, r)) : r.length < s.length := by
  unfold readKey? at h
  grind [→ length_nextMember, → length_readText_lt]

theorem length_readColon_lt {s r : Bytes} (h : readColon s = .ok r) : r.length < s.length := by
  have h₀ := length_skipBlanks_le s
  unfold readColon at h
  grind

/-- A reader that depends on a key and carries a state, and whose rest is no longer than its
input. -/
structure MemberStep (σ : Type) where
  /-- Reads what follows a key. -/
  run : σ → String → Bytes → Except Fault (σ × Bytes)
  /-- The rest is no longer than the input. -/
  short : ∀ {st key s st' r}, run st key s = .ok (st', r) → r.length ≤ s.length

/-- Reads all members up to the closing brace, each with the step. -/
def foldMembers {σ : Type} (step : MemberStep σ) (st : σ) (first : Bool) (s : Bytes) :
    Except Fault (σ × Bytes) :=
  match _h : readKey? first s with
  | .error f => .error f
  | .ok (none, r) => .ok (st, r)
  | .ok (some key, r) =>
    match _h₁ : step.run st key r with
    | .error f => .error f
    | .ok (st', r') => foldMembers step st' false r'
termination_by s.length
decreasing_by
  have := length_readKey?_lt _h
  have := step.short _h₁
  omega

theorem length_foldMembers_lt {σ : Type} {step : MemberStep σ} {st st' : σ} {first : Bool}
    {s r : Bytes} (h : foldMembers step st first s = .ok (st', r)) : r.length < s.length := by
  fun_induction foldMembers step st first s with
  | case1 => simp at h
  | case2 st first s r' hk =>
    have := length_readKey?_lt hk
    simp_all
  | case3 => simp at h
  | case4 st first s key r₁ hk st₁ r₂ hs ih =>
    have := length_readKey?_lt hk
    have := step.short hs
    have := ih h
    omega

/-! ## Arrays -/

/-- Whether another element follows, and the text at it.  The closing bracket is left unread. -/
def moreElements (first : Bool) (s : Bytes) : Read Bool :=
  match skipBlanks s with
  | [] => .error (.next .endOfList [])
  | b :: r =>
    if b = closeBracket then .ok (false, b :: r)
    else if first then .ok (true, b :: r)
    else if b = comma then
      match skipBlanks r with
      | [] => .error (.next .endOfValue [])
      | b :: r =>
        if b = closeBracket then .error (.next .trailingComma (b :: r)) else .ok (true, b :: r)
    else .error (.next .expectedCommaOrBracket (b :: r))

/-- Reads the closing bracket. -/
def endElements (s : Bytes) : Except Fault Bytes :=
  match skipBlanks s with
  | [] => .error (.next .endOfList [])
  | b :: r =>
    if b = closeBracket then .ok r
    else if b = comma then
      match skipBlanks r with
      | b :: r =>
        if b = closeBracket then .error (.next .trailingComma (b :: r))
        else .error (.next .trailingText (b :: r))
      | [] => .error (.next .trailingText [])
    else .error (.next .trailingText (b :: r))

theorem length_moreElements_le {first more : Bool} {s r : Bytes}
    (h : moreElements first s = .ok (more, r)) :
    r.length ≤ s.length ∧ (first = false → more = true → r.length < s.length) := by
  have h₀ := length_skipBlanks_le s
  unfold moreElements at h
  split at h
  · simp at h
  · rename_i b r₁ hs
    have h₁ := length_skipBlanks_le r₁
    rw [hs] at h₀
    simp at h₀
    grind

theorem length_endElements_lt {s r : Bytes} (h : endElements s = .ok r) :
    r.length < s.length := by
  have h₀ := length_skipBlanks_le s
  unfold endElements at h
  grind

end Lineage.Json

import Lineage.Text.Blank
import Lineage.Text.Integer

/-!
# Integers read back

An integer of 64 bits that is written in decimal is read as itself (`signed?_toString`), and there
are no blanks in its text to be cut off (`trim_toString`).  What is read at all is an integer of 64
bits in decimal, with any number of leading zeros and perhaps with a sign (`signed?_eq_some_iff`).
-/

namespace Lineage.Text

/-! ## Digits -/

theorem digits?_eq {cs : List Char} (h : ∀ c ∈ cs, c.isDigit = true) (n : Nat) :
    digits? n cs = some (Nat.ofDigitChars 10 cs n) := by
  induction cs generalizing n with
  | nil => rfl
  | cons c cs ih =>
      rw [List.forall_mem_cons] at h
      rw [digits?, if_pos h.1, ih h.2, Nat.ofDigitChars_cons, Nat.mul_comm]
      rfl

theorem toList_toString (n : Nat) : (toString n).toList = Nat.toDigits 10 n := by
  rw [Nat.toString_eq_repr, Nat.repr_eq_ofList_toDigits, String.toList_ofList]

theorem isDigit_of_mem_toString {n : Nat} {c : Char} (h : c ∈ (toString n).toList) :
    c.isDigit = true :=
  Nat.isDigit_of_mem_toDigits (by decide) (by decide) (toList_toString n ▸ h)

theorem number?_toString (n : Nat) : number? (toString n).toList = some n := by
  have hdigits := digits?_eq (fun c hc => isDigit_of_mem_toString (n := n) hc) 0
  rw [toList_toString, Nat.ofDigitChars_ten_toDigits] at hdigits
  rw [toList_toString]
  unfold number?
  split
  next hnil => exact absurd hnil Nat.toDigits_ne_nil
  next => exact hdigits

/-- The text of an integer is that of its digits, behind a sign if it is negative. -/
theorem toString_cases (n : Int) :
    (∃ k : Nat, n = k ∧ (toString n).toList = (toString k).toList) ∨
      ∃ k : Nat, n = -k ∧ (toString n).toList = '-' :: (toString k).toList := by
  cases n with
  | ofNat k => exact .inl ⟨k, rfl, rfl⟩
  | negSucc k =>
      refine .inr ⟨k + 1, rfl, ?_⟩
      have htext : toString (Int.negSucc k) = "-" ++ toString (k + 1) := rfl
      rw [htext, String.toList_append]
      rfl

/-- A text that begins with a digit has no sign to be read. -/
theorem signed?_of_isDigit {cs : List Char} (h : ∀ c ∈ cs, c.isDigit = true) :
    signed? cs = (number? cs).bind fun n =>
      if -0x8000000000000000 ≤ (n : Int) ∧ (n : Int) < 0x8000000000000000 then
        some (n : Int)
      else none := by
  unfold signed?
  split
  next => exact absurd (h '-' (List.mem_cons_self ..)) (by decide)
  next => exact absurd (h '+' (List.mem_cons_self ..)) (by decide)
  next => rfl

/-- A signed number of 64 bits is read as itself. -/
theorem signed?_toString {n : Int} (hlow : -0x8000000000000000 ≤ n)
    (hhigh : n < 0x8000000000000000) :
    signed? (toString n).toList = some n := by
  rcases toString_cases n with ⟨k, rfl, htext⟩ | ⟨k, rfl, htext⟩ <;> rw [htext]
  · rw [signed?_of_isDigit fun c hc => isDigit_of_mem_toString hc,
      number?_toString, Option.bind_some, if_pos (And.intro hlow hhigh)]
  · simp only [signed?, number?_toString, Option.bind_some, hlow, hhigh, and_self, if_true]

/-! ## No blanks -/

theorem isBlank_of_isDigit {c : Char} (h : c.isDigit = true) : isBlank c = false := by
  rw [Char.isDigit, Bool.and_eq_true, decide_eq_true_eq, decide_eq_true_eq] at h
  have hlow : 48 ≤ c.toNat := UInt32.le_iff_toNat_le.mp h.1
  have hhigh : c.toNat ≤ 57 := UInt32.le_iff_toNat_le.mp h.2
  simp [isBlank]
  omega

theorem dropWhile_isBlank_eq_self {cs : List Char} (h : ∀ c ∈ cs, isBlank c = false) :
    cs.dropWhile isBlank = cs := by
  cases cs with
  | nil => rfl
  | cons c cs => rw [List.dropWhile_cons_of_neg (by simp [h c])]

/-- A text without blanks is as it was when the blanks at its ends are cut off. -/
theorem trim_eq_self {cs : List Char} (h : ∀ c ∈ cs, isBlank c = false) : trim cs = cs := by
  rw [trim, dropWhile_isBlank_eq_self h, dropWhile_isBlank_eq_self, List.reverse_reverse]
  exact fun c hc => h c (List.mem_reverse.mp hc)

theorem trim_toString (n : Int) : trim (toString n).toList = (toString n).toList := by
  apply trim_eq_self
  intro c hc
  rcases toString_cases n with ⟨k, _, htext⟩ | ⟨k, _, htext⟩ <;> rw [htext] at hc
  · exact isBlank_of_isDigit (isDigit_of_mem_toString hc)
  · rcases List.mem_cons.mp hc with rfl | hdigit
    · decide
    · exact isBlank_of_isDigit (isDigit_of_mem_toString hdigit)

/-! ## Which texts are read -/

/-- The decimal texts of an integer: at least one digit, perhaps behind a sign. -/
inductive Spells : List Char → Int → Prop
  /-- Without a sign. -/
  | plain {cs : List Char} : cs ≠ [] → (∀ c ∈ cs, c.isDigit = true) →
    Spells cs (Nat.ofDigitChars 10 cs 0)
  /-- Behind a plus sign. -/
  | plus {cs : List Char} : cs ≠ [] → (∀ c ∈ cs, c.isDigit = true) →
    Spells ('+' :: cs) (Nat.ofDigitChars 10 cs 0)
  /-- Behind a minus sign. -/
  | minus {cs : List Char} : cs ≠ [] → (∀ c ∈ cs, c.isDigit = true) →
    Spells ('-' :: cs) (-Nat.ofDigitChars 10 cs 0)

theorem isDigit_of_digits? {n m : Nat} {cs : List Char} (h : digits? n cs = some m) :
    ∀ c ∈ cs, c.isDigit = true := by
  induction cs generalizing n with
  | nil => exact fun c hc => absurd hc List.not_mem_nil
  | cons c cs ih =>
      rw [digits?] at h
      split at h
      next hc => exact List.forall_mem_cons.mpr ⟨hc, ih h⟩
      next => cases h

theorem number?_eq_some_iff {cs : List Char} {n : Nat} :
    number? cs = some n ↔
      cs ≠ [] ∧ (∀ c ∈ cs, c.isDigit = true) ∧ Nat.ofDigitChars 10 cs 0 = n := by
  unfold number?
  split
  next => simp
  next hne =>
    constructor
    · intro h
      have hdigits := isDigit_of_digits? h
      rw [digits?_eq hdigits, Option.some.injEq] at h
      exact ⟨hne, hdigits, h⟩
    · rintro ⟨_, hdigits, rfl⟩
      exact digits?_eq hdigits 0

/-- What is read is the text of an integer of 64 bits. -/
theorem spells_of_signed? {cs : List Char} {n : Int} (h : signed? cs = some n) :
    Spells cs n ∧ -0x8000000000000000 ≤ n ∧ n < 0x8000000000000000 := by
  unfold signed? at h
  split at h
  all_goals
    obtain ⟨k, hk, hfits⟩ := Option.bind_eq_some_iff.mp h
    obtain ⟨hne, hdigits, rfl⟩ := number?_eq_some_iff.mp hk
    obtain ⟨hrange, heq⟩ := Option.ite_none_right_eq_some.mp hfits
    rw [← Option.some.inj heq]
    refine ⟨?_, hrange⟩
  case h_1 => exact .minus hne hdigits
  case h_2 => exact .plus hne hdigits
  case h_3 => exact .plain hne hdigits

theorem signed?_plus (cs : List Char) :
    signed? ('+' :: cs) = (number? cs).bind fun n =>
      if -0x8000000000000000 ≤ (n : Int) ∧ (n : Int) < 0x8000000000000000 then
        some (n : Int)
      else none := rfl

theorem signed?_minus (cs : List Char) :
    signed? ('-' :: cs) = (number? cs).bind fun n =>
      if -0x8000000000000000 ≤ (-n : Int) ∧ (-n : Int) < 0x8000000000000000 then some (-n : Int)
      else none := rfl

/-- The text of an integer of 64 bits is read as it. -/
theorem Spells.signed?_eq {cs : List Char} {n : Int} (h : Spells cs n)
    (hlow : -0x8000000000000000 ≤ n) (hhigh : n < 0x8000000000000000) : signed? cs = some n := by
  have hrange := And.intro hlow hhigh
  cases h with
  | plain hne hdigits =>
      rw [signed?_of_isDigit hdigits, number?_eq_some_iff.mpr ⟨hne, hdigits, rfl⟩,
        Option.bind_some, if_pos hrange]
  | plus hne hdigits =>
      rw [signed?_plus, number?_eq_some_iff.mpr ⟨hne, hdigits, rfl⟩,
        Option.bind_some, if_pos hrange]
  | minus hne hdigits =>
      rw [signed?_minus, number?_eq_some_iff.mpr ⟨hne, hdigits, rfl⟩,
        Option.bind_some, if_pos hrange]

theorem signed?_eq_some_iff {cs : List Char} {n : Int} :
    signed? cs = some n ↔ Spells cs n ∧ -0x8000000000000000 ≤ n ∧ n < 0x8000000000000000 :=
  ⟨spells_of_signed?, fun ⟨h, hlow, hhigh⟩ => h.signed?_eq hlow hhigh⟩

end Lineage.Text

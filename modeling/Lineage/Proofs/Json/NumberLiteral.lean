import Lineage.Proofs.Json.Number

/-!
# Numbers and the integers that they denote

Every number of the grammar is an integer as it is written, a negative zero, or has a fraction or an
exponent (`numeral_iff`).  Only the first kind denotes an integer.  No text is a number in two ways,
so a number that is read as an integer denotes the integer that is read
(`NumberLiteral.eq_of_integer`).
-/

namespace Lineage.Json.Grammar

/-- A number and the integer that it denotes, if it is written as an integer and is no negative
zero. -/
inductive NumberLiteral : Bytes → Option Int → Bytes → Prop
  /-- An integer in digits. -/
  | integer {s r : Bytes} {n : Int} : Integer s n r → NumberLiteral s (some n) r
  /-- A zero with a minus sign. -/
  | negativeZero (r : Bytes) : NumberLiteral (minus :: 0x30 :: r) none r
  /-- A number with a fraction, an exponent, or both of them. -/
  | decimal {s s₁ s₂ s₃ r : Bytes} {n : Nat} : Sign s s₁ → Whole s₁ n s₂ →
    Fraction s₂ s₃ → Exponent s₃ r →
    s₂ ≠ r → NumberLiteral s none r

/-! ## All numbers -/

theorem Integer.exists_whole {s r : Bytes} {n : Int} (h : Integer s n r) :
    ∃ s₁ m, Sign s s₁ ∧ Whole s₁ m r := by
  cases h with
  | natural hwhole => exact ⟨s, _, .absent s, hwhole⟩
  | negative hwhole => exact ⟨_, _, .present _, hwhole⟩

theorem Integer.numeral {s r : Bytes} {n : Int} (h : Integer s n r) : Numeral s r := by
  obtain ⟨s₁, m, hsign, hwhole⟩ := h.exists_whole
  exact .mk hsign hwhole (.absent r) (.absent r)

theorem NumberLiteral.numeral {s r : Bytes} {i : Option Int} (h : NumberLiteral s i r) :
    Numeral s r := by
  cases h with
  | integer hinteger => exact hinteger.numeral
  | negativeZero => exact .mk (.present _) (.zero r) (.absent r) (.absent r)
  | decimal hsign hwhole hfraction hexponent => exact .mk hsign hwhole hfraction hexponent

theorem Digits.le {n m : Nat} {s r : Bytes} (h : Digits n s m r) : n ≤ m := by
  induction h with
  | done => exact Nat.le_refl _
  | more _ _ ih => omega

theorem digitValue_ne_zero {b : UInt8} (hb : isDigit b = true) (hzero : b ≠ 0x30) :
    digitValue b ≠ 0 := by
  rw [isDigit, Bool.and_eq_true, decide_eq_true_eq, decide_eq_true_eq, UInt8.le_iff_toNat_le] at hb
  have hne : b.toNat ≠ 0x30 := fun h => hzero (UInt8.toNat_inj.mp h)
  have hle : 0x30 ≤ b.toNat := hb.1
  rw [digitValue]
  omega

/-- The numbers are of these kinds and no others. -/
theorem numeral_iff {s r : Bytes} : Numeral s r ↔ ∃ i, NumberLiteral s i r := by
  constructor
  · intro h
    cases h with
    | @mk s₁ s₂ s₃ _ n hsign hwhole hfraction hexponent =>
        by_cases hplain : s₂ = r
        · subst hplain
          cases hsign with
          | absent => exact ⟨_, .integer (.natural hwhole)⟩
          | present =>
              cases hwhole with
              | zero => exact ⟨none, .negativeZero _⟩
              | digits hb hzero hdigits =>
                  have hpos := Nat.pos_of_ne_zero (digitValue_ne_zero hb hzero)
                  have hne : n ≠ 0 := Nat.ne_of_gt (Nat.lt_of_lt_of_le hpos hdigits.le)
                  exact ⟨_, .integer (.negative (.digits hb hzero hdigits) hne)⟩
        · exact ⟨none, .decimal hsign hwhole hfraction hexponent hplain⟩
  · rintro ⟨i, h⟩
    exact h.numeral

/-! ## One reading each -/

theorem Whole.unique {s r r' : Bytes} {n n' : Nat} (h : Whole s n r) (hr : NoDigit r)
    (h' : Whole s n' r') (hr' : NoDigit r') : n = n' ∧ r = r' := by
  obtain ⟨ds, hread, rfl⟩ := h.exists_readWhole hr .endOfValue
  obtain ⟨ds', hread', rfl⟩ := h'.exists_readWhole hr' .endOfValue
  rw [hread] at hread'
  cases hread'
  exact ⟨rfl, rfl⟩

theorem Fraction.noDigit {s r : Bytes} (h : Fraction s r) (hr : NoDigit r) : NoDigit s := by
  cases h with
  | absent => exact hr
  | digits => exact noDigit_cons rfl

theorem Numeral.unique {s r r' : Bytes} (h : Numeral s r) (hr : EndsNumber r) (h' : Numeral s r')
    (hr' : EndsNumber r') : r = r' := by
  obtain ⟨n, hread⟩ := h.exists_readNumeral hr .endOfValue
  obtain ⟨n', hread'⟩ := h'.exists_readNumeral hr' .endOfValue
  rw [hread] at hread'
  cases hread'
  rfl

/-- A whole number begins behind the sign, wherever it ends. -/
theorem Sign.unique {s s₁ s₂ r r' : Bytes} {n n' : Nat} (h : Sign s s₁)
    (hwhole : Whole s₁ n r) (h' : Sign s s₂) (hwhole' : Whole s₂ n' r') : s₁ = s₂ := by
  obtain ⟨b, u, hs₁, hb⟩ := hwhole.exists_eq
  obtain ⟨b', u', hs₂, hb'⟩ := hwhole'.exists_eq
  rw [← h.readSign_eq hs₁ hb, h'.readSign_eq hs₂ hb']

theorem not_whole_minus (s r : Bytes) (n : Nat) : ¬ Whole (minus :: s) n r := by
  intro h
  obtain ⟨b, u, hs, hb⟩ := h.exists_eq
  cases hs
  cases hb

theorem Integer.unique {s r : Bytes} {n n' : Int} (h : Integer s n r) (h' : Integer s n' r)
    (hr : NoDigit r) : n = n' := by
  cases h with
  | natural hwhole =>
      cases h' with
      | natural hwhole' => rw [(hwhole.unique hr hwhole' hr).1]
      | negative => exact absurd hwhole (not_whole_minus _ _ _)
  | negative hwhole =>
      cases h' with
      | natural hwhole' => exact absurd hwhole' (not_whole_minus _ _ _)
      | negative hwhole' => rw [(hwhole.unique hr hwhole' hr).1]

/-- A number that is an integer to its end denotes this integer. -/
theorem NumberLiteral.eq_of_integer {s r r' : Bytes} {i : Option Int} {n : Int}
    (h : NumberLiteral s i r) (hr : EndsNumber r) (h' : Integer s n r') (hr' : EndsNumber r') :
    i = some n ∧ r' = r := by
  obtain rfl : r' = r := h'.numeral.unique hr' h.numeral hr
  refine ⟨?_, rfl⟩
  cases h with
  | integer hinteger => rw [hinteger.unique h' hr.noDigit]
  | negativeZero =>
      cases h' with
      | natural hwhole => exact absurd hwhole (not_whole_minus _ _ _)
      | negative hwhole hne =>
          exact absurd ((Whole.zero _).unique hr.noDigit hwhole hr.noDigit).1.symm hne
  | decimal hsign hwhole hfraction hexponent hne =>
      obtain ⟨s₁', m, hsign', hwhole'⟩ := h'.exists_whole
      obtain rfl := hsign.unique hwhole hsign' hwhole'
      have hend := hfraction.noDigit (hexponent.endsNumber hr).1
      exact absurd (hwhole.unique hend hwhole' hr.noDigit).2 hne

end Lineage.Json.Grammar

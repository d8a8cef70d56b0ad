import Lineage.Proofs.Json.Grammar

/-!
# Numbers as they are read

A reader of numbers goes on as long as it can, so it finds the number that the grammar derives when
the text behind it ends the number (`Numeral.exists_readNumeral`).  What `readNumeral` accepts is a
number in any case.

`readInteger_ok_iff` says which of them are integers.  Those are written with neither fraction nor
exponent, are no negative zero, and fit 64 bits.
-/

namespace Lineage.Json.Grammar

/-! ## Digits -/

/-- The number of some digits behind those of `n`. -/
def digitsFrom (n : Nat) (ds : List Nat) : Nat := ds.foldl (fun n d => n * 10 + d) n

theorem le_digitsFrom (n : Nat) (ds : List Nat) : n ≤ digitsFrom n ds := by
  induction ds generalizing n with
  | nil => exact Nat.le_refl n
  | cons d ds ih =>
      have htail := ih (n * 10 + d)
      rw [digitsFrom, List.foldl_cons]
      exact Nat.le_trans (by omega) htail

/-- A text that does not begin with a digit. -/
def NoDigit (r : Bytes) : Prop := ∀ b ∈ r.head?, isDigit b = false

theorem EndsNumber.noDigit {r : Bytes} (h : EndsNumber r) : NoDigit r := fun b hb => (h b hb).1

theorem noDigit_cons {b : UInt8} {r : Bytes} (h : isDigit b = false) : NoDigit (b :: r) := by
  intro b' hb
  cases hb
  exact h

theorem digits_skipDigits (n : Nat) (s : Bytes) :
    Digits n s (digitsFrom n (leadingDigits s)) (skipDigits s) := by
  induction s generalizing n with
  | nil => exact .done n []
  | cons b s ih =>
      cases hb : isDigit b with
      | true =>
          rw [leadingDigits, skipDigits, List.takeWhile_cons_of_pos hb,
            List.dropWhile_cons_of_pos hb]
          exact .more hb (ih (n * 10 + digitValue b))
      | false =>
          rw [leadingDigits, skipDigits, List.takeWhile_cons_of_neg (by simp [hb]),
            List.dropWhile_cons_of_neg (by simp [hb])]
          exact .done n _

theorem noDigit_skipDigits (s : Bytes) : NoDigit (skipDigits s) := by
  intro b hb
  have hnot := List.head?_dropWhile_not isDigit s
  rw [← skipDigits, Option.mem_def.mp hb] at hnot
  exact hnot

/-- The digits of the grammar are those that are read, if no digit follows them. -/
theorem Digits.eq_of_noDigit {n m : Nat} {s r : Bytes} (h : Digits n s m r) (hr : NoDigit r) :
    digitsFrom n (leadingDigits s) = m ∧ skipDigits s = r := by
  induction h with
  | done n s =>
      cases s with
      | nil => exact ⟨rfl, rfl⟩
      | cons b s =>
          have hb : isDigit b = false := hr b rfl
          rw [leadingDigits, skipDigits, List.takeWhile_cons_of_neg (by simp [hb]),
            List.dropWhile_cons_of_neg (by simp [hb])]
          exact ⟨rfl, rfl⟩
  | more hb _ ih =>
      rw [leadingDigits, skipDigits, List.takeWhile_cons_of_pos hb, List.dropWhile_cons_of_pos hb]
      exact ih hr

theorem someDigits_skipDigits {b : UInt8} (s : Bytes) (hb : isDigit b = true) :
    SomeDigits (b :: s) (skipDigits (b :: s)) := by
  rw [skipDigits, List.dropWhile_cons_of_pos hb]
  exact .mk hb (digits_skipDigits _ s)

theorem SomeDigits.exists_eq {s r : Bytes} (h : SomeDigits s r) (hr : NoDigit r) :
    ∃ b u, s = b :: u ∧ isDigit b = true ∧ skipDigits (b :: u) = r := by
  cases h with
  | mk hb hdigits =>
      refine ⟨_, _, rfl, hb, ?_⟩
      rw [skipDigits, List.dropWhile_cons_of_pos hb]
      exact (hdigits.eq_of_noDigit hr).2

/-! ## The parts of a number -/

theorem isDigit_zero : isDigit 0x30 = true := rfl

theorem isDigit_of_isExponentMark {e : UInt8} (h : isExponentMark e = true) :
    isDigit e = false := by
  rw [isExponentMark, Bool.or_eq_true, beq_iff_eq, beq_iff_eq] at h
  rcases h with rfl | rfl <;> rfl

theorem ne_point_of_isExponentMark {e : UInt8} (h : isExponentMark e = true) : e ≠ point := by
  rw [isExponentMark, Bool.or_eq_true, beq_iff_eq, beq_iff_eq] at h
  rcases h with rfl | rfl <;> decide

theorem whole_of_readWhole {c : Cause} {s r : Bytes} {ds : List Nat}
    (h : readWhole c s = .ok (ds, r)) :
    Whole s (digitsFrom 0 ds) r ∧ NoDigit r := by
  unfold readWhole at h
  split at h
  · cases h
  · rename_i b u
    split at h
    · rename_i hzero
      subst hzero
      split at h
      · cases h
        exact ⟨.zero [], fun _ hb => by cases hb⟩
      · split at h
        · cases h
        · rename_i d u hd
          cases h
          exact ⟨.zero _, noDigit_cons (eq_false_of_ne_true hd)⟩
    · rename_i hzero
      split at h
      · rename_i hb
        cases h
        rw [digitsFrom, List.foldl_cons, Nat.zero_mul, Nat.zero_add]
        exact ⟨.digits hb hzero (digits_skipDigits _ u), noDigit_skipDigits u⟩
      · cases h

theorem Whole.exists_readWhole {s r : Bytes} {n : Nat} (h : Whole s n r) (hr : NoDigit r)
    (c : Cause) :
    ∃ ds, readWhole c s = .ok (ds, r) ∧ digitsFrom 0 ds = n := by
  cases h with
  | zero =>
      refine ⟨[0], ?_, rfl⟩
      cases r with
      | nil => rfl
      | cons d r =>
          have hd : isDigit d = false := hr d rfl
          simp only [readWhole, if_true, hd, Bool.false_eq_true, if_false]
  | @digits b s _ _ hb hzero hdigits =>
      obtain ⟨hvalue, hrest⟩ := hdigits.eq_of_noDigit hr
      refine ⟨digitValue b :: leadingDigits s, ?_, ?_⟩
      · simp only [readWhole, if_neg hzero, hb, if_true, hrest]
      · rw [digitsFrom, List.foldl_cons, Nat.zero_mul, Nat.zero_add]
        exact hvalue

/-- A whole number begins with a digit. -/
theorem Whole.exists_eq {s r : Bytes} {n : Nat} (h : Whole s n r) :
    ∃ b u, s = b :: u ∧ isDigit b = true := by
  cases h with
  | zero => exact ⟨_, _, rfl, isDigit_zero⟩
  | digits hb => exact ⟨_, _, rfl, hb⟩

theorem readSign_cases (s : Bytes) :
    (readSign s).1 = false ∧ (readSign s).2 = s ∨
      (readSign s).1 = true ∧ s = minus :: (readSign s).2 := by
  unfold readSign
  split
  · exact .inl ⟨rfl, rfl⟩
  · split
    · rename_i hb
      exact .inr ⟨rfl, by rw [hb]⟩
    · exact .inl ⟨rfl, rfl⟩

theorem sign_readSign (s : Bytes) : Sign s (readSign s).2 := by
  rcases readSign_cases s with ⟨_, hsame⟩ | ⟨_, hminus⟩
  · rw [hsame]
    exact .absent s
  · generalize (readSign s).2 = r at hminus
    rw [hminus]
    exact .present r

/-- A sign is read as such, if a digit follows it. -/
theorem Sign.readSign_eq {s r : Bytes} (h : Sign s r) {b : UInt8} {u : Bytes} (hr : r = b :: u)
    (hb : isDigit b = true) : (readSign s).2 = r := by
  cases h with
  | absent =>
      have hne : b ≠ Json.minus := by
        rintro rfl
        cases hb
      rw [hr, readSign, if_neg hne]
  | present => rfl

theorem fraction_of_readFraction {c : Cause} {s r : Bytes} {f : Option (List Nat)}
    (h : readFraction c s = .ok (f, r)) :
    Fraction s r ∧ (f = none → s = r ∧ ∀ b ∈ r.head?, b ≠ point) := by
  unfold readFraction at h
  split at h
  · cases h
    exact ⟨.absent [], fun _ => ⟨rfl, fun _ hb => by cases hb⟩⟩
  · split at h
    · rename_i hpoint
      rw [hpoint]
      split at h
      · cases h
      · split at h
        · rename_i hd
          cases h
          exact ⟨.digits (someDigits_skipDigits _ hd), fun hnone => by cases hnone⟩
        · cases h
    · rename_i hpoint
      cases h
      refine ⟨.absent _, fun _ => ⟨rfl, fun b hb => ?_⟩⟩
      cases hb
      exact hpoint

theorem Fraction.exists_readFraction {s r : Bytes} (h : Fraction s r) (hr : NoDigit r)
    (hpoint : s = r → ∀ b ∈ r.head?, b ≠ point) (c : Cause) :
    ∃ f, readFraction c s = .ok (f, r) := by
  cases h with
  | absent =>
      cases s with
      | nil => exact ⟨none, rfl⟩
      | cons b s =>
          have hne : b ≠ point := hpoint rfl b rfl
          exact ⟨none, by simp only [readFraction, if_neg hne]⟩
  | digits hdigits =>
      obtain ⟨b, u, rfl, hb, hrest⟩ := hdigits.exists_eq hr
      exact ⟨some (leadingDigits (b :: u)), by simp only [readFraction, if_true, hb, hrest]⟩

theorem exponent_of_readExponent {c : Cause} {s r : Bytes} {e : Option (Bool × List Nat)}
    (h : readExponent c s = .ok (e, r)) :
    Exponent s r ∧ (e = none → s = r ∧ ∀ b ∈ r.head?, isExponentMark b = false) := by
  unfold readExponent at h
  split at h
  · cases h
    exact ⟨.absent [], fun _ => ⟨rfl, fun _ hb => by cases hb⟩⟩
  · split at h
    · rename_i b u hmark
      split at h
      · cases h
      · rename_i negative d v hsign
        split at h
        · rename_i hd
          cases h
          refine ⟨?_, fun hnone => by cases hnone⟩
          have hdigits := someDigits_skipDigits v hd
          unfold readExponentSign at hsign
          split at hsign
          · cases hsign
          · split at hsign
            · rename_i hplus
              cases hsign
              exact .signed hmark (.inl hplus) hdigits
            · split at hsign
              · rename_i hminus
                cases hsign
                exact .signed hmark (.inr hminus) hdigits
              · cases hsign
                exact .digits hmark hdigits
        · cases h
    · rename_i hmark
      cases h
      refine ⟨.absent _, fun _ => ⟨rfl, fun b hb => ?_⟩⟩
      cases hb
      exact eq_false_of_ne_true hmark

theorem Exponent.exists_readExponent {s r : Bytes} (h : Exponent s r) (hr : EndsNumber r)
    (c : Cause) :
    ∃ e, readExponent c s = .ok (e, r) := by
  cases h with
  | absent =>
      cases s with
      | nil => exact ⟨none, rfl⟩
      | cons b s =>
          refine ⟨none, ?_⟩
          rw [readExponent, (hr b rfl).2.2, if_neg Bool.false_ne_true]
  | digits hmark hdigits =>
      obtain ⟨b, u, rfl, hb, hrest⟩ := hdigits.exists_eq hr.noDigit
      have hplus : b ≠ plus := by
        rintro rfl
        cases hb
      have hminus : b ≠ minus := by
        rintro rfl
        cases hb
      refine ⟨some (false, leadingDigits (b :: u)), ?_⟩
      simp only [readExponent, hmark, readExponentSign, if_neg hplus,
        if_neg hminus, hb, hrest, if_true]
  | signed hmark hsign hdigits =>
      obtain ⟨b, u, rfl, hb, hrest⟩ := hdigits.exists_eq hr.noDigit
      rcases hsign with rfl | rfl
      · refine ⟨some (false, leadingDigits (b :: u)), ?_⟩
        simp only [readExponent, hmark, readExponentSign, hb, hrest, if_true]
      · have hne : minus ≠ plus := by decide
        refine ⟨some (true, leadingDigits (b :: u)), ?_⟩
        simp only [readExponent, hmark, readExponentSign, if_neg hne, hb, hrest, if_true]

/-- An exponent or nothing begins with no digit and no point, if what follows does not. -/
theorem Exponent.endsNumber {s r : Bytes} (h : Exponent s r) (hr : EndsNumber r) :
    NoDigit s ∧ ∀ b ∈ s.head?, b ≠ point := by
  cases h with
  | absent => exact ⟨hr.noDigit, fun b hb => (hr b hb).2.1⟩
  | digits hmark =>
      refine ⟨noDigit_cons (isDigit_of_isExponentMark hmark), fun b hb => ?_⟩
      cases hb
      exact ne_point_of_isExponentMark hmark
  | signed hmark =>
      refine ⟨noDigit_cons (isDigit_of_isExponentMark hmark), fun b hb => ?_⟩
      cases hb
      exact ne_point_of_isExponentMark hmark

/-- Where a number ends there is neither a fraction nor an exponent. -/
theorem EndsNumber.read_none {r : Bytes} (h : EndsNumber r) (c : Cause) :
    readFraction c r = .ok (none, r) ∧ readExponent c r = .ok (none, r) := by
  cases r with
  | nil => exact ⟨rfl, rfl⟩
  | cons b r =>
      obtain ⟨_, hpoint, hmark⟩ := h b rfl
      simp only [readFraction, if_neg hpoint, readExponent, hmark,
        Bool.false_eq_true, if_false, and_self]

/-! ## Numbers with all their parts -/

/-- What `readNumeral` has read, part by part. -/
theorem readNumeral_ok_iff {c : Cause} {s r : Bytes} {n : Json.Numeral} :
    readNumeral c s = .ok (n, r) ↔ ∃ s₁ s₂,
      readWhole c (readSign s).2 = .ok (n.whole, s₁) ∧
        readFraction c s₁ = .ok (n.fraction, s₂) ∧
        readExponent c s₂ = .ok (n.exponent, r) ∧ (readSign s).1 = n.negative := by
  simp only [readNumeral, bind, Except.bind]
  constructor
  · intro h
    split at h
    · cases h
    · rename_i whole hwhole
      split at h
      · cases h
      · rename_i fraction hfraction
        split at h
        · cases h
        · rename_i exponent hexponent
          cases h
          exact ⟨whole.2, fraction.2, hwhole, hfraction, hexponent, rfl⟩
  · rintro ⟨s₁, s₂, hwhole, hfraction, hexponent, hsign⟩
    simp only [hwhole, hfraction, hexponent, hsign]

theorem numeral_of_readNumeral {c : Cause} {s r : Bytes} {n : Json.Numeral}
    (h : readNumeral c s = .ok (n, r)) : Numeral s r := by
  obtain ⟨s₁, s₂, hwhole, hfraction, hexponent, _⟩ := readNumeral_ok_iff.mp h
  exact .mk (sign_readSign s) (whole_of_readWhole hwhole).1 (fraction_of_readFraction hfraction).1
    (exponent_of_readExponent hexponent).1

theorem Numeral.exists_readNumeral {s r : Bytes} (h : Numeral s r) (hr : EndsNumber r) (c : Cause) :
    ∃ n, readNumeral c s = .ok (n, r) := by
  cases h with
  | @mk _ s₂ s₃ _ _ hsign hwhole hfraction hexponent =>
      obtain ⟨b, u, hs₁, hb⟩ := hwhole.exists_eq
      obtain ⟨hnodigit, hnopoint⟩ := hexponent.endsNumber hr
      have hend : NoDigit s₂ := by
        cases hfraction with
        | absent => exact hnodigit
        | digits => exact noDigit_cons rfl
      obtain ⟨ds, hds, _⟩ := hwhole.exists_readWhole hend c
      obtain ⟨f, hf⟩ := hfraction.exists_readFraction hnodigit (fun _ => hnopoint) c
      obtain ⟨e, he⟩ := hexponent.exists_readExponent hr c
      refine ⟨⟨_, ds, f, e⟩, readNumeral_ok_iff.mpr ⟨s₂, s₃, ?_, hf, he, rfl⟩⟩
      rw [hsign.readSign_eq hs₁ hb]
      exact hds

/-! ## Integers -/

theorem takeDigits_of_le {bound n : Nat} {ds : List Nat} (h : digitsFrom n ds ≤ bound) :
    takeDigits bound n ds = (digitsFrom n ds, []) := by
  induction ds generalizing n with
  | nil => rfl
  | cons d ds ih =>
      have hfirst : n * 10 + d ≤ bound := Nat.le_trans (le_digitsFrom (n * 10 + d) ds) h
      rw [takeDigits, if_pos hfirst]
      exact ih h

/-- Digits of too great a number are not all taken. -/
theorem takeDigits_of_lt {bound n : Nat} {ds : List Nat} (hn : n ≤ bound)
    (h : bound < digitsFrom n ds) : (takeDigits bound n ds).2.isEmpty = false := by
  induction ds generalizing n with
  | nil => exact absurd h (Nat.not_lt.mpr hn)
  | cons d ds ih =>
      rw [takeDigits]
      split
      · rename_i hfirst
        exact ih hfirst h
      · rfl

/-- A double is no integer. -/
theorem float_ne_integer {negative : Bool} {digits : Nat} {x : Float} {e : Int} {i : Int} :
    (if exceedsDouble digits e then (.error 0 : Except Nat Number)
      else .ok (.float (signedFloat negative x))) ≠ .ok (.integer i) := by
  split <;> exact fun h => by cases h

/-- A numeral with a fraction, with an exponent or of too many digits is no integer. -/
theorem digits_of_value_eq_integer {n : Json.Numeral} {i : Int} (h : n.value = .ok (.integer i)) :
    n.fraction = none ∧ n.exponent = none ∧ digitsFrom 0 n.whole ≤ maxWord64 := by
  unfold Json.Numeral.value at h
  dsimp only at h
  split at h
  · rename_i hfraction hexponent
    refine ⟨hfraction, hexponent, Nat.le_of_not_lt fun hbig => ?_⟩
    have hdropped := takeDigits_of_lt (Nat.zero_le _) hbig
    simp only [hdropped, Bool.not_false, if_true] at h
    exact float_ne_integer h
  · exact absurd h float_ne_integer
  · split at h
    · exact absurd h float_ne_integer
    · split at h <;> cases h

/-- A numeral in digits is an integer, unless it is minus zero or too far below zero. -/
theorem value_of_digits {negative : Bool} {whole : List Nat} {i : Int}
    (hfits : digitsFrom 0 whole ≤ maxWord64) :
    (⟨negative, whole, none, none⟩ : Json.Numeral).value = .ok (.integer i) ↔
      negative = false ∧ i = digitsFrom 0 whole ∨
        negative = true ∧ 0 < digitsFrom 0 whole ∧ digitsFrom 0 whole ≤ 0x8000000000000000 ∧
          i = -digitsFrom 0 whole := by
  unfold Json.Numeral.value
  dsimp only
  rw [takeDigits_of_le hfits]
  cases negative with
  | false =>
      constructor
      · intro h
        cases h
        exact .inl ⟨rfl, rfl⟩
      · rintro (⟨_, rfl⟩ | ⟨hsign, _⟩)
        · rfl
        · cases hsign
  | true =>
      simp only [List.isEmpty_nil, Bool.not_true, Bool.false_eq_true, if_false]
      split
      · rename_i hrange
        constructor
        · intro h
          cases h
          exact .inr ⟨trivial, hrange.1, hrange.2, rfl⟩
        · rintro (⟨hsign, _⟩ | ⟨_, _, _, rfl⟩)
          · cases hsign
          · rfl
      · rename_i hrange
        constructor
        · exact fun h => by cases h
        · rintro (⟨hsign, _⟩ | ⟨_, hpos, hle, _⟩)
          · cases hsign
          · exact absurd ⟨hpos, hle⟩ hrange

/-- The numerals whose value is an integer. -/
theorem value_eq_integer_iff {n : Json.Numeral} {i : Int} :
    n.value = .ok (.integer i) ↔ n.fraction = none ∧ n.exponent = none ∧
      digitsFrom 0 n.whole ≤ maxWord64 ∧
        (n.negative = false ∧ i = digitsFrom 0 n.whole ∨
          n.negative = true ∧ 0 < digitsFrom 0 n.whole ∧
            digitsFrom 0 n.whole ≤ 0x8000000000000000 ∧
            i = -digitsFrom 0 n.whole) := by
  obtain ⟨negative, whole, fraction, exponent⟩ := n
  constructor
  · intro h
    obtain ⟨hfraction, hexponent, hfits⟩ := digits_of_value_eq_integer h
    cases hfraction
    cases hexponent
    exact ⟨rfl, rfl, hfits, (value_of_digits hfits).mp h⟩
  · rintro ⟨hfraction, hexponent, hfits, hcases⟩
    cases hfraction
    cases hexponent
    exact (value_of_digits hfits).mpr hcases

/-- A numeral whose value is an integer, part by part. -/
theorem readNumber_integer_iff {s r : Bytes} {i : Int} :
    readNumber s = .ok (.integer i, r) ↔
      ∃ n : Json.Numeral, readNumeral .endOfValue s = .ok (n, r) ∧
        n.value = .ok (.integer i) := by
  simp only [readNumber, bind, Except.bind]
  constructor
  · intro h
    split at h
    · cases h
    · rename_i found hread
      split at h
      · rename_i v hvalue
        cases h
        exact ⟨found.1, hread, hvalue⟩
      · cases h
  · rintro ⟨n, hread, hvalue⟩
    simp only [hread, hvalue]

/-- What is read as an integer is written as one, and it fits 64 bits, signed or unsigned. -/
theorem integer_of_readNumber {s r : Bytes} {i : Int} (h : readNumber s = .ok (.integer i, r)) :
    Integer s i r ∧ EndsNumber r ∧ -0x8000000000000000 ≤ i ∧ i ≤ maxWord64 := by
  obtain ⟨n, hread, hvalue⟩ := readNumber_integer_iff.mp h
  obtain ⟨s₁, s₂, hwhole, hfraction, hexponent, hsign⟩ := readNumeral_ok_iff.mp hread
  obtain ⟨hnone, hnone', hfits, hcases⟩ := value_eq_integer_iff.mp hvalue
  obtain ⟨hdigits, hnodigit⟩ := whole_of_readWhole hwhole
  obtain ⟨rfl, hpoint⟩ := (fraction_of_readFraction hfraction).2 hnone
  obtain ⟨rfl, hmark⟩ := (exponent_of_readExponent hexponent).2 hnone'
  have hends : EndsNumber s₁ := fun b hb => ⟨hnodigit b hb, hpoint b hb, hmark b hb⟩
  rcases hcases with ⟨hplus, rfl⟩ | ⟨hminus, hpos, hle, rfl⟩
  · rcases readSign_cases s with ⟨_, hsame⟩ | ⟨hother, _⟩
    · rw [hsame] at hdigits
      exact ⟨.natural hdigits, hends, by omega, by omega⟩
    · rw [hsign, hplus] at hother
      cases hother
  · rcases readSign_cases s with ⟨hother, _⟩ | ⟨_, hsplit⟩
    · rw [hsign, hminus] at hother
      cases hother
    · rw [hsplit]
      exact ⟨.negative hdigits (by omega), hends, by omega, by omega⟩

/-- An integer that fits is read, if no number goes on behind it. -/
theorem Integer.readNumber_eq {s r : Bytes} {i : Int} (h : Integer s i r) (hends : EndsNumber r)
    (hlow : -0x8000000000000000 ≤ i) (hhigh : i ≤ maxWord64) :
    readNumber s = .ok (.integer i, r) := by
  have hmax : maxWord64 = 0xffffffffffffffff := rfl
  obtain ⟨hnone, hnone'⟩ := hends.read_none .endOfValue
  rw [readNumber_integer_iff]
  cases h with
  | @natural _ _ n hwhole =>
      obtain ⟨ds, hds, rfl⟩ := hwhole.exists_readWhole hends.noDigit .endOfValue
      obtain ⟨b, u, hs, hb⟩ := hwhole.exists_eq
      have hsign : readSign s = (false, s) := by
        have hne : b ≠ minus := by
          rintro rfl
          cases hb
        rw [hs, readSign, if_neg hne]
      refine ⟨⟨false, ds, none, none⟩,
        readNumeral_ok_iff.mpr ⟨r, r, ?_, hnone, hnone', ?_⟩, ?_⟩
      · rw [hsign]
        exact hds
      · rw [hsign]
      · exact (value_of_digits (by omega)).mpr (.inl ⟨rfl, rfl⟩)
  | @negative s _ n hwhole hne =>
      obtain ⟨ds, hds, rfl⟩ := hwhole.exists_readWhole hends.noDigit .endOfValue
      refine ⟨⟨true, ds, none, none⟩,
        readNumeral_ok_iff.mpr ⟨r, r, hds, hnone, hnone', rfl⟩, ?_⟩
      have hpos : 0 < digitsFrom 0 ds := Nat.pos_of_ne_zero hne
      exact (value_of_digits (by omega)).mpr (.inr ⟨rfl, hpos, by omega, rfl⟩)

/-- The numbers that are read as integers are those that are written as integers, end where no
number goes on, and fit 64 bits, signed or unsigned. -/
theorem readNumber_ok_iff {s r : Bytes} {i : Int} :
    readNumber s = .ok (.integer i, r) ↔
      Integer s i r ∧ EndsNumber r ∧ -0x8000000000000000 ≤ i ∧ i ≤ maxWord64 :=
  ⟨integer_of_readNumber, fun ⟨h, hends, hlow, hhigh⟩ => h.readNumber_eq hends hlow hhigh⟩

theorem Integer.exists_eq {s r : Bytes} {i : Int} (h : Integer s i r) :
    ∃ b u, s = b :: u ∧ (b = minus ∨ isDigit b = true) := by
  cases h with
  | natural hwhole =>
      obtain ⟨b, u, hs, hb⟩ := hwhole.exists_eq
      exact ⟨b, u, hs, .inr hb⟩
  | negative => exact ⟨_, _, rfl, .inl rfl⟩

theorem isBlank_of_isDigit {b : UInt8} (h : isDigit b = true) : isBlank b = false := by
  rw [isDigit, Bool.and_eq_true, decide_eq_true_eq, decide_eq_true_eq] at h
  simp only [isBlank, Bool.or_eq_false_iff, beq_eq_false_iff_ne]
  refine ⟨⟨⟨?_, ?_⟩, ?_⟩, ?_⟩ <;> (rintro rfl; exact absurd h (by decide))

/-- An integer is read behind blanks, and it has to pass the test. -/
theorem readInteger_ok_iff {expected : String} {fits : Int → Bool} {s r : Bytes} {i : Int}
    (hfits : fits i = true → -0x8000000000000000 ≤ i ∧ i ≤ maxWord64) :
    readInteger expected fits s = .ok (i, r) ↔
      ∃ s₁, Blanks s s₁ ∧ Integer s₁ i r ∧ EndsNumber r ∧ fits i = true := by
  constructor
  · intro h
    unfold readInteger at h
    split at h
    · cases h
    · rename_i b u hskip
      split at h
      · split at h
        · cases h
        · cases h
        · rename_i j r' hread
          split at h
          · rename_i hfit
            cases h
            obtain ⟨hinteger, hends, _⟩ := readNumber_ok_iff.mp hread
            exact ⟨_, blanks_of_skipBlanks hskip, hinteger, hends, hfit⟩
          · cases h
      · cases h
  · rintro ⟨s₁, hblanks, hinteger, hends, hfit⟩
    obtain ⟨hlow, hhigh⟩ := hfits hfit
    have hread := readNumber_ok_iff.mpr ⟨hinteger, hends, hlow, hhigh⟩
    obtain ⟨b, u, rfl, hb⟩ := hinteger.exists_eq
    have hskip : skipBlanks s = b :: u := by
      refine hblanks.skipBlanks_cons ?_
      rcases hb with rfl | hdigit
      · rfl
      · exact isBlank_of_isDigit hdigit
    unfold readInteger
    simp only [hskip, if_pos hb, hread, hfit, if_true]

end Lineage.Json.Grammar

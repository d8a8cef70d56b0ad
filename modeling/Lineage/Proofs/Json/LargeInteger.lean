import Lineage.Proofs.Json.Printer
import Mathlib.Algebra.Order.Ring.Nat
import Mathlib.Data.List.TakeWhile

/-!
# Integers of any size

An integer that does not fit 64 bits is read as a double.  The digits that fit make the significand
and the others count as a power of ten, so the first twenty digits and their number decide whether
the double is infinite (`exceedsDouble_iff`).  Below `integerLimit` it is not, and every integer is
read (`Integer.exists_readNumber`).  From there on every integer is refused
(`Integer.readNumber_refused`).
-/

namespace Lineage.Json

/-! ## Rounding -/

/-- A number is rounded by at most its `2^53`th part. -/
theorem round53_near (n : Nat) :
    n * (2 ^ 53 - 1) ≤ round53 n * 2 ^ 53 ∧ round53 n * 2 ^ 53 ≤ n * (2 ^ 53 + 1) := by
  have hpos : 0 < 1 <<< (n.log2 - 52) := by
    rw [Nat.one_shiftLeft]
    exact Nat.two_pow_pos _
  -- Either all digits are kept, or the unit is small beside the number.
  have hsmall : n % 1 <<< (n.log2 - 52) = 0 ∨ 1 <<< (n.log2 - 52) * 2 ^ 52 ≤ n := by
    rw [Nat.one_shiftLeft]
    rcases Nat.lt_or_ge 52 n.log2 with hbig | hkept
    · right
      have hn : n ≠ 0 := by
        rintro rfl
        exact absurd hbig (by decide)
      rw [← Nat.pow_add, Nat.sub_add_cancel (Nat.le_of_lt hbig)]
      exact Nat.log2_self_le hn
    · left
      rw [Nat.sub_eq_zero_of_le hkept]
      exact Nat.mod_one n
  have hmod := Nat.mod_lt n hpos
  have hdiv := Nat.div_add_mod' n (1 <<< (n.log2 - 52))
  unfold round53
  dsimp only
  generalize 1 <<< (n.log2 - 52) = unit at *
  generalize n % unit = rest at *
  rw [Nat.add_mul, Nat.one_mul]
  generalize n / unit * unit = kept at *
  split <;> omega

/-- Two numbers are rounded as their product is, up to two such parts. -/
theorem round53_mul_near (m n : Nat) :
    m * n * (2 ^ 53 - 1) ^ 2 ≤ round53 m * round53 n * 2 ^ 106 ∧
      round53 m * round53 n * 2 ^ 106 ≤ m * n * (2 ^ 53 + 1) ^ 2 := by
  obtain ⟨hlow, hhigh⟩ := round53_near m
  obtain ⟨hlow', hhigh'⟩ := round53_near n
  have hparts : round53 m * round53 n * 2 ^ 106 = round53 m * 2 ^ 53 * (round53 n * 2 ^ 53) := by
    rw [mul_mul_mul_comm, ← pow_add]
  rw [hparts, sq, sq, mul_mul_mul_comm m n, mul_mul_mul_comm m n]
  exact ⟨Nat.mul_le_mul hlow hlow', Nat.mul_le_mul hhigh hhigh'⟩

theorem exceedsDouble_natCast {p e : Nat} (hp : p ≠ 0) (he : e ≤ 308) :
    exceedsDouble p e = decide (doubleLimit ≤ round53 p * round53 (10 ^ e)) := by
  have hlow : ¬ (308 : Int) < e := by omega
  have hnat : (0 : Int) ≤ e := Int.natCast_nonneg e
  simp only [exceedsDouble, ne_eq, hp, not_false_eq_true, decide_true,
    Bool.true_and, hlow, decide_false, Bool.false_or, hnat, Int.toNat_natCast]
  rfl

theorem exceedsDouble_of_lt {p e : Nat} (h : p * 10 ^ e < 10 ^ 308) :
    exceedsDouble p e = false := by
  by_cases hp : p = 0
  · subst hp
    rfl
  · have hpow : 10 ^ e ≤ p * 10 ^ e := Nat.le_mul_of_pos_left _ (Nat.pos_of_ne_zero hp)
    have he : e < 308 := (pow_lt_pow_iff_right₀ (by decide)).mp (Nat.lt_of_le_of_lt hpow h)
    have hlimit : 10 ^ 308 * (2 ^ 53 + 1) ^ 2 ≤ doubleLimit * 2 ^ 106 := by decide +kernel
    have hnear := (round53_mul_near p (10 ^ e)).2
    have hprod : p * 10 ^ e * (2 ^ 53 + 1) ^ 2 < 10 ^ 308 * (2 ^ 53 + 1) ^ 2 :=
      Nat.mul_lt_mul_of_pos_right h (by decide)
    rw [exceedsDouble_natCast hp (Nat.le_of_lt he), decide_eq_false_iff_not, Nat.not_le]
    have hbelow := Nat.lt_of_le_of_lt hnear (Nat.lt_of_lt_of_le hprod hlimit)
    exact Nat.lt_of_mul_lt_mul_right hbelow

theorem exceedsDouble_of_le {p e : Nat} (h : 18 * 10 ^ 307 ≤ p * 10 ^ e) :
    exceedsDouble p e = true := by
  have hp : p ≠ 0 := by
    rintro rfl
    rw [Nat.zero_mul, Nat.le_zero, Nat.mul_eq_zero] at h
    rcases h with h | h
    · cases h
    · exact absurd h (pow_ne_zero 307 (by decide))
  rcases Nat.lt_or_ge 308 e with he | he
  · have hint : (308 : Int) < e := by omega
    simp [exceedsDouble, hp, hint]
  · have hlimit : doubleLimit * 2 ^ 106 ≤ 18 * 10 ^ 307 * (2 ^ 53 - 1) ^ 2 := by decide +kernel
    have hnear := (round53_mul_near p (10 ^ e)).1
    have hprod := Nat.mul_le_mul_right ((2 ^ 53 - 1) ^ 2) h
    rw [exceedsDouble_natCast hp he, decide_eq_true_eq]
    exact Nat.le_of_mul_le_mul_right (Nat.le_trans hlimit (Nat.le_trans hprod hnear)) (by decide)

/-! ## The first integer that is refused -/

/-- The least integer that is read as an infinite double. -/
def integerLimit : Nat := 17976931348623156225 * 10 ^ 289

/-- A number of 64 bits whose highest bit is set has eleven bits to round away. -/
theorem round53_of_log2 {p : Nat} (hlow : 2 ^ 63 ≤ p) (hhigh : p < 2 ^ 64) :
    round53 p =
      if 2048 < 2 * (p % 2048) ∨ 2048 = 2 * (p % 2048) ∧ p / 2048 % 2 = 1 then
        (p / 2048 + 1) * 2048
      else p / 2048 * 2048 := by
  have hlog : p.log2 = 63 := (Nat.log2_eq_iff (by omega)).mpr ⟨hlow, hhigh⟩
  rw [round53, hlog]
  rfl

theorem round53_lt {p : Nat} (hlow : 2 ^ 63 ≤ p) (h : p < 17976931348623156225) :
    round53 p ≤ 17976931348623155200 := by
  rw [round53_of_log2 hlow (by omega)]
  split <;> omega

theorem le_round53 {p : Nat} (h : 17976931348623156225 ≤ p) (hhigh : p < 2 ^ 64) :
    17976931348623157248 ≤ round53 p := by
  rw [round53_of_log2 (by omega) hhigh]
  split <;> omega

/-- Where the power of ten leaves the matter open, the twenty digits of the significand decide. -/
theorem exceedsDouble_289 {p : Nat} (hlow : 2 ^ 63 ≤ p) (hhigh : p < 2 ^ 64) :
    exceedsDouble p 289 = true ↔ 17976931348623156225 ≤ p := by
  have hcast : ((289 : Nat) : Int) = 289 := rfl
  rw [← hcast, exceedsDouble_natCast (by omega) (by decide), decide_eq_true_eq]
  constructor
  · intro h
    refine Nat.le_of_not_lt fun hlt => ?_
    have hbelow : 17976931348623155200 * round53 (10 ^ 289) < doubleLimit := by decide +kernel
    exact absurd (Nat.le_trans h (Nat.mul_le_mul_right _ (round53_lt hlow hlt)))
      (Nat.not_le.mpr hbelow)
  · intro h
    have habove : doubleLimit ≤ 17976931348623157248 * round53 (10 ^ 289) := by decide +kernel
    exact Nat.le_trans habove (Nat.mul_le_mul_right _ (le_round53 h hhigh))

/-- The leading digits of a number that does not fit 64 bits, and the number of the others, say
whether it is too great for a double. -/
theorem exceedsDouble_iff {n p k : Nat} (hk : 0 < k) (hfits : p ≤ maxWord64)
    (hfull : maxWord64 < p * 10 + 9) (hlow : p * 10 ^ k ≤ n) (hhigh : n < (p + 1) * 10 ^ k) :
    exceedsDouble p k = true ↔ integerLimit ≤ n := by
  have hmax : maxWord64 = 0xffffffffffffffff := rfl
  rcases Nat.lt_trichotomy k 289 with hlt | rfl | hgt
  · have hle : k ≤ 288 := by omega
    have hpow : 10 ^ k ≤ 10 ^ 288 := pow_le_pow_right₀ (by decide) hle
    have hbelow : 2 ^ 64 * 10 ^ 288 < 10 ^ 308 := by decide +kernel
    have hlimit : 10 ^ 308 ≤ integerLimit := by decide +kernel
    have hp : p * 10 ^ k ≤ (p + 1) * 10 ^ k := Nat.mul_le_mul_right _ (Nat.le_succ p)
    have hprod : (p + 1) * 10 ^ k ≤ 2 ^ 64 * 10 ^ 288 := Nat.mul_le_mul (by omega) hpow
    rw [exceedsDouble_of_lt (Nat.lt_of_le_of_lt (Nat.le_trans hp hprod) hbelow)]
    simp only [Bool.false_eq_true, false_iff, Nat.not_le]
    exact Nat.lt_trans (Nat.lt_of_lt_of_le hhigh hprod) (Nat.lt_of_lt_of_le hbelow hlimit)
  · have hsplit : 2 ^ 63 * 10 ^ 289 < 10 ^ 308 := by decide +kernel
    have hlimit : 10 ^ 308 ≤ integerLimit := by decide +kernel
    rcases Nat.lt_or_ge p (2 ^ 63) with hsmall | hbig
    · have hprod : (p + 1) * 10 ^ 289 ≤ 2 ^ 63 * 10 ^ 289 := Nat.mul_le_mul_right _ hsmall
      have hp : p * 10 ^ 289 ≤ (p + 1) * 10 ^ 289 := Nat.mul_le_mul_right _ (Nat.le_succ p)
      rw [exceedsDouble_of_lt (Nat.lt_of_le_of_lt (Nat.le_trans hp hprod) hsplit)]
      simp only [Bool.false_eq_true, false_iff, Nat.not_le]
      exact Nat.lt_trans (Nat.lt_of_lt_of_le hhigh hprod) (Nat.lt_of_lt_of_le hsplit hlimit)
    · have hcast : ((289 : Nat) : Int) = 289 := rfl
      rw [hcast, exceedsDouble_289 hbig (by omega)]
      constructor
      · exact fun h => Nat.le_trans (Nat.mul_le_mul_right _ h) hlow
      · intro h
        have hlt : 17976931348623156225 * 10 ^ 289 < (p + 1) * 10 ^ 289 :=
          Nat.lt_of_le_of_lt h hhigh
        exact Nat.le_of_lt_succ (Nat.lt_of_mul_lt_mul_right hlt)
  · have hpow : 10 ^ 290 ≤ 10 ^ k := pow_le_pow_right₀ (by decide) hgt
    have habove : 18 * 10 ^ 307 ≤ 1844674407370955161 * 10 ^ 290 := by decide +kernel
    have hlimit : integerLimit ≤ 18 * 10 ^ 307 := by decide +kernel
    have hprod : 1844674407370955161 * 10 ^ 290 ≤ p * 10 ^ k := Nat.mul_le_mul (by omega) hpow
    have hgreat := Nat.le_trans habove hprod
    exact iff_of_true (exceedsDouble_of_le hgreat) (Nat.le_trans hlimit (Nat.le_trans hgreat hlow))

namespace Grammar

/-! ## The digits that are kept -/

/-- Digits behind those of `n` make a number whose leading part is `n`. -/
theorem digitsFrom_bounds {n : Nat} {ds : List Nat} (hds : ∀ d ∈ ds, d < 10) :
    n * 10 ^ ds.length ≤ digitsFrom n ds ∧ digitsFrom n ds < (n + 1) * 10 ^ ds.length := by
  induction ds generalizing n with
  | nil =>
      rw [List.length_nil, pow_zero, Nat.mul_one, Nat.mul_one]
      exact ⟨Nat.le_refl n, Nat.lt_succ_self n⟩
  | cons d ds ih =>
      rw [List.forall_mem_cons] at hds
      obtain ⟨hlow, hhigh⟩ := ih (n := n * 10 + d) hds.2
      rw [List.length_cons, pow_succ', ← Nat.mul_assoc, ← Nat.mul_assoc]
      rw [digitsFrom, List.foldl_cons]
      exact ⟨Nat.le_trans (Nat.mul_le_mul_right _ (by omega)) hlow,
        Nat.lt_of_lt_of_le hhigh (Nat.mul_le_mul_right _ (by omega))⟩

/-- The digits that are taken make the leading part of the number, and one more would be too
many. -/
theorem takeDigits_bounds {bound n p : Nat} {ds rest : List Nat} (hn : n ≤ bound)
    (hds : ∀ d ∈ ds, d < 10) (h : takeDigits bound n ds = (p, rest)) :
    p ≤ bound ∧ p * 10 ^ rest.length ≤ digitsFrom n ds ∧
      digitsFrom n ds < (p + 1) * 10 ^ rest.length ∧ (rest ≠ [] → bound < p * 10 + 9) := by
  induction ds generalizing n with
  | nil =>
      cases h
      exact ⟨hn, (digitsFrom_bounds hds).1, (digitsFrom_bounds hds).2,
        fun hne => absurd rfl hne⟩
  | cons d ds ih =>
      rw [takeDigits] at h
      split at h
      · rename_i hfits
        exact ih hfits (List.forall_mem_cons.mp hds).2 h
      · rename_i hfull
        cases h
        have hd := (List.forall_mem_cons.mp hds).1
        exact ⟨hn, (digitsFrom_bounds hds).1, (digitsFrom_bounds hds).2, fun _ => by omega⟩

/-- A numeral in digits that does not fit 64 bits is a double, unless it is too great. -/
theorem value_of_large (negative : Bool) {whole : List Nat} (hds : ∀ d ∈ whole, d < 10)
    (hlarge : maxWord64 < digitsFrom 0 whole) :
    ∃ x : Float, (⟨negative, whole, none, none⟩ : Json.Numeral).value =
      if integerLimit ≤ digitsFrom 0 whole then .error 0 else .ok (.float x) := by
  generalize htake : takeDigits maxWord64 0 whole = taken
  obtain ⟨p, rest⟩ := taken
  obtain ⟨hfits, hlow, hhigh, hfull⟩ := takeDigits_bounds (Nat.zero_le _) hds htake
  have hleft : rest ≠ [] := by
    rintro rfl
    rw [List.length_nil, pow_zero, Nat.mul_one] at hhigh
    omega
  have hexceeds := exceedsDouble_iff (List.length_pos_iff.mpr hleft) hfits (hfull hleft) hlow hhigh
  refine ⟨signedFloat negative (scale p.toUInt64.toFloat rest.length), ?_⟩
  have hempty : rest.isEmpty = false := List.isEmpty_eq_false_iff.mpr hleft
  simp only [Json.Numeral.value, htake, Option.getD_none, takeDigits, hempty,
    Bool.not_false, if_true, List.length_nil, Nat.sub_self, Int.natCast_zero,
    Int.sub_zero, hexceeds]

theorem exists_value_of_le (negative : Bool) {whole : List Nat}
    (hfits : digitsFrom 0 whole ≤ maxWord64) :
    ∃ v, (⟨negative, whole, none, none⟩ : Json.Numeral).value = .ok v := by
  unfold Json.Numeral.value
  dsimp only
  rw [takeDigits_of_le hfits]
  cases negative with
  | false => exact ⟨_, rfl⟩
  | true =>
      simp only [List.isEmpty_nil, Bool.not_true, Bool.false_eq_true, if_false]
      split <;> exact ⟨_, rfl⟩

theorem digitValue_lt {b : UInt8} (hb : isDigit b = true) : digitValue b < 10 := by
  rw [isDigit, Bool.and_eq_true, decide_eq_true_eq, decide_eq_true_eq, UInt8.le_iff_toNat_le,
    UInt8.le_iff_toNat_le] at hb
  have hhigh : b.toNat ≤ 0x39 := hb.2
  rw [digitValue]
  omega

theorem lt_of_mem_leadingDigits {s : Bytes} {d : Nat} (hd : d ∈ leadingDigits s) : d < 10 := by
  obtain ⟨b, hb, rfl⟩ := List.mem_map.mp hd
  exact digitValue_lt (List.all_eq_true.mp List.all_takeWhile b hb)

theorem lt_of_readWhole {c : Cause} {s r : Bytes} {ds : List Nat}
    (h : readWhole c s = .ok (ds, r)) :
    ∀ d ∈ ds, d < 10 := by
  have hzero : ∀ d ∈ [0], d < 10 := by decide
  unfold readWhole at h
  split at h
  · cases h
  · split at h
    · split at h
      · cases h
        exact hzero
      · split at h
        · cases h
        · cases h
          exact hzero
    · split at h
      · rename_i hb
        cases h
        exact List.forall_mem_cons.mpr ⟨digitValue_lt hb, fun d => lt_of_mem_leadingDigits⟩
      · cases h

/-! ## Integers in decimal -/

/-- No sign is read where digits stand. -/
theorem Whole.readSign_eq {s r : Bytes} {n : Nat} (h : Whole s n r) (x : Bytes) :
    readSign (s ++ x) = (false, s ++ x) := by
  obtain ⟨b, u, rfl, hb⟩ := h.exists_eq
  have hne : b ≠ minus := by
    rintro rfl
    cases hb
  rw [List.cons_append, readSign, if_neg hne]

/-- No digit is read where none stands. -/
theorem NoDigit.skipDigits_eq {r : Bytes} (h : NoDigit r) :
    leadingDigits r = [] ∧ skipDigits r = r := by
  cases r with
  | nil => exact ⟨rfl, rfl⟩
  | cons b r =>
      have hb : ¬ isDigit b = true := by simp [h b rfl]
      rw [leadingDigits, skipDigits, List.takeWhile_cons_of_neg hb, List.dropWhile_cons_of_neg hb]
      exact ⟨rfl, rfl⟩

theorem skipDigits_append {s r : Bytes} (h : skipDigits s = []) (hr : NoDigit r) :
    leadingDigits (s ++ r) = leadingDigits s ∧ skipDigits (s ++ r) = r := by
  obtain ⟨hleading, hskip⟩ := hr.skipDigits_eq
  have hall : ∀ b ∈ s, isDigit b = true := by
    rw [skipDigits, List.dropWhile_eq_nil_iff] at h
    exact h
  rw [leadingDigits, List.map_eq_nil_iff] at hleading
  rw [leadingDigits, leadingDigits, skipDigits, List.takeWhile_append_of_pos hall,
    List.dropWhile_append_of_pos hall, hleading, List.append_nil,
    List.takeWhile_eq_self_iff.mpr hall]
  exact ⟨rfl, hskip⟩

/-- The digits of a text are read as they are in front of another one that does not begin with a
digit. -/
theorem readWhole_append {c : Cause} {s r : Bytes} {ds : List Nat}
    (h : readWhole c s = .ok (ds, [])) (hr : NoDigit r) : readWhole c (s ++ r) = .ok (ds, r) := by
  unfold readWhole at h
  split at h
  · cases h
  · rename_i b u
    rw [List.cons_append]
    split at h
    · rename_i hzero
      split at h
      · cases h
        subst hzero
        cases r with
        | nil => rfl
        | cons d r =>
            simp only [List.nil_append, readWhole, if_true, hr d rfl, Bool.false_eq_true, if_false]
      · split at h <;> cases h
    · rename_i hzero
      split at h
      · rename_i hb
        rw [Except.ok.injEq, Prod.mk.injEq] at h
        obtain ⟨rfl, hskip⟩ := h
        obtain ⟨hleading, hrest⟩ := skipDigits_append hskip hr
        simp only [readWhole, if_neg hzero, hb, if_true, hleading, hrest]
      · cases h

/-- An integer is read as a numeral of digits, which are those of its distance from zero. -/
theorem Integer.exists_readNumeral {s : Bytes} {i : Int} (h : Integer s i []) :
    ∃ negative whole, (∀ r, EndsNumber r →
        readNumeral .endOfValue (s ++ r) = .ok (⟨negative, whole, none, none⟩, r)) ∧
      digitsFrom 0 whole = i.natAbs ∧ ∀ d ∈ whole, d < 10 := by
  have hnone : NoDigit [] := fun b hb => by cases hb
  cases h with
  | @natural _ _ n hwhole =>
      obtain ⟨ds, hds, rfl⟩ := hwhole.exists_readWhole hnone .endOfValue
      have hsign : ∀ r, readSign (s ++ r) = (false, s ++ r) := fun r => hwhole.readSign_eq r
      have hten := lt_of_readWhole hds
      refine ⟨false, ds, fun r hr => readNumeral_ok_iff.mpr ⟨r, r, ?_, ?_, ?_, ?_⟩,
        ?_, hten⟩
      · rw [hsign]
        exact readWhole_append hds hr.noDigit
      · exact (hr.read_none .endOfValue).1
      · exact (hr.read_none .endOfValue).2
      · rw [hsign]
      · rw [Int.natAbs_natCast]
  | @negative s _ n hwhole hne =>
      obtain ⟨ds, hds, rfl⟩ := hwhole.exists_readWhole hnone .endOfValue
      have hten := lt_of_readWhole hds
      refine ⟨true, ds, fun r hr => readNumeral_ok_iff.mpr ⟨r, r, ?_, ?_, ?_, rfl⟩,
        ?_, hten⟩
      · exact readWhole_append hds hr.noDigit
      · exact (hr.read_none .endOfValue).1
      · exact (hr.read_none .endOfValue).2
      · rw [Int.natAbs_neg, Int.natAbs_natCast]

/-- An integer that is not too great is read, as the same number in front of anything. -/
theorem Integer.exists_readNumber {s : Bytes} {i : Int} (h : Integer s i [])
    (hi : i.natAbs < integerLimit) :
    ∃ v, ∀ r, EndsNumber r → readNumber (s ++ r) = .ok (v, r) := by
  obtain ⟨negative, whole, hread, habs, hds⟩ := h.exists_readNumeral
  rw [← habs] at hi
  have hvalue : ∃ v, (⟨negative, whole, none, none⟩ : Json.Numeral).value = .ok v := by
    rcases Nat.lt_or_ge maxWord64 (digitsFrom 0 whole) with hlarge | hfits
    · obtain ⟨x, hvalue⟩ := value_of_large negative hds hlarge
      rw [if_neg (Nat.not_le.mpr hi)] at hvalue
      exact ⟨.float x, hvalue⟩
    · exact exists_value_of_le negative hfits
  obtain ⟨v, hvalue⟩ := hvalue
  refine ⟨v, fun r hr => ?_⟩
  simp only [readNumber, bind, Except.bind, hread r hr, hvalue]

/-- An integer that is too great is refused at its end. -/
theorem Integer.readNumber_refused {s r : Bytes} {i : Int} (h : Integer s i []) (hr : EndsNumber r)
    (hi : integerLimit ≤ i.natAbs) :
    readNumber (s ++ r) = .error ⟨.numberOutOfRange, r.length, 0⟩ := by
  obtain ⟨negative, whole, hread, habs, hds⟩ := h.exists_readNumeral
  rw [← habs] at hi
  have hlarge : maxWord64 < integerLimit := by decide +kernel
  obtain ⟨x, hvalue⟩ := value_of_large negative hds (Nat.lt_of_lt_of_le hlarge hi)
  rw [if_pos hi] at hvalue
  simp only [readNumber, bind, Except.bind, hread r hr, hvalue, Nat.add_zero]

/-- What is written for an integer stands for it. -/
theorem integer_toString (i : Int) (r : Bytes) : Integer (utf8 (toString i) ++ r) i r := by
  cases i with
  | ofNat k => exact .natural (whole_repr k r)
  | negSucc k =>
      have htext : toString (Int.negSucc k) = "-" ++ toString (k + 1) := rfl
      rw [htext, utf8_append, List.append_assoc]
      exact .negative (whole_repr (k + 1) r) (Nat.succ_ne_zero k)

/-- What is written for an integer stands for it up to its end. -/
theorem integer_toString_nil (i : Int) : Integer (utf8 (toString i)) i [] := by
  have htext := integer_toString i []
  rwa [List.append_nil] at htext

end Grammar

end Lineage.Json

import Lineage.Json.Value
import Lineage.Proofs.Json.LargeInteger

/-!
# Strings and integers as values

A string or an integer that is written among other values is read wherever it stands, unless it is
an integer that is too great for a double (`Scalar.exists_readAs`, `Scalar.readValue_refused`).
-/

namespace Lineage.Json

open Grammar

/-- A string or an integer. -/
inductive Scalar where
  /-- A string. -/
  | text (t : String)
  /-- An integer of any size. -/
  | integer (i : Int)
  deriving DecidableEq, Repr

namespace Scalar

/-- The text of a scalar. -/
def print : Scalar → String
  | .text t => printString t
  | .integer i => toString i

/-- Whether a scalar is no integer that is too great for a double. -/
def Readable : Scalar → Prop
  | .text _ => True
  | .integer i => i.natAbs < integerLimit

instance : DecidablePred Readable
  | .text _ => inferInstanceAs (Decidable True)
  | .integer i => inferInstanceAs (Decidable (i.natAbs < integerLimit))

/-- The value of a scalar, where an integer fits 64 bits. -/
def value : Scalar → Value
  | .text t => .text t
  | .integer i => .number (.integer i)

/-- A scalar is read as a value, inside any number of open containers. -/
def ReadAs (x : Scalar) (v : Value) : Prop :=
  ∀ (outer : Nat) (r : Bytes), EndsNumber r → readValue outer (utf8 x.print ++ r) = .ok (v, r)

/-! ## The first byte -/

/-- A byte that begins a string or a number. -/
def Starts (b : UInt8) : Prop := b = quote ∨ b = minus ∨ isDigit b = true

theorem Starts.plain {b : UInt8} (h : Starts b) : isBlank b = false ∧ isOpening b = false := by
  rcases h with rfl | rfl | hdigit
  · exact ⟨rfl, rfl⟩
  · exact ⟨rfl, rfl⟩
  · refine ⟨isBlank_of_isDigit hdigit, ?_⟩
    rw [isOpening, Bool.or_eq_false_iff, beq_eq_false_iff_ne, beq_eq_false_iff_ne]
    constructor <;> (rintro rfl; cases hdigit)

/-- A value that begins like this is read at once. -/
theorem readValue_cons {b : UInt8} (hb : Starts b) (outer : Nat) (s : Bytes) :
    readValue outer (b :: s) = readScalar (b :: s) := by
  obtain ⟨hblank, hopening⟩ := hb.plain
  rw [isOpening, Bool.or_eq_false_iff, beq_eq_false_iff_ne, beq_eq_false_iff_ne] at hopening
  have hskip : skipBlanks (b :: s) = b :: s := skipBlanks_cons hblank s
  rw [readValue, readValueFrom, hskip]
  dsimp only
  rw [if_neg (by simp [hb.plain.2]), openValue, if_neg hopening.1, if_neg hopening.2]
  cases readScalar (b :: s) with
  | error f => rfl
  | ok p =>
      dsimp only
      rw [readValueFrom]

/-! ## Strings -/

theorem readAs_text (t : String) : ReadAs (.text t) (value (.text t)) := by
  intro outer r _
  have htext := text_printString t r
  rw [print]
  generalize utf8 (printString t) ++ r = s at htext
  cases htext with
  | @mk s _ _ hbytes =>
      have hread : readText s = .ok (t, r) := readText_ok_iff.mpr (.mk hbytes)
      have hfound : readFound (quote :: s) = .ok (.text t, r) := by
        rw [readFound, if_neg (by decide), if_neg (by decide),
          if_neg (by decide), if_pos rfl, hread]
      rw [readValue_cons (.inl rfl), readScalar, hfound]
      rfl

/-! ## Integers -/

/-- What begins like a number is read as one. -/
theorem readScalar_number {b : UInt8} (hb : b = minus ∨ isDigit b = true) (s : Bytes) :
    readScalar (b :: s) = (readNumber (b :: s)).map fun p => (.number p.1, p.2) := by
  have hne : b ≠ 0x6e ∧ b ≠ 0x74 ∧ b ≠ 0x66 ∧ b ≠ quote := by
    refine ⟨?_, ?_, ?_, ?_⟩ <;> (rintro rfl; revert hb; decide)
  have hfound : readFound (b :: s) = (readNumber (b :: s)).map fun p => (p.1.found, p.2) := by
    rw [readFound, if_neg hne.1, if_neg hne.2.1, if_neg hne.2.2.1, if_neg hne.2.2.2, if_pos hb]
    cases readNumber (b :: s) <;> rfl
  rw [readScalar, hfound]
  cases readNumber (b :: s) with
  | error f => rfl
  | ok p =>
      obtain ⟨n, r⟩ := p
      cases n <;> rfl

/-- An integer is read as the number that it is. -/
theorem readValue_integer (i : Int) (outer : Nat) (r : Bytes) :
    readValue outer (utf8 (Scalar.integer i).print ++ r) =
      (readNumber (utf8 (toString i) ++ r)).map fun p => (.number p.1, p.2) := by
  obtain ⟨b, u, hs, hb⟩ := (integer_toString i r).exists_eq
  rw [print, hs, readValue_cons (.inr hb), readScalar_number hb]

theorem readAs_integer {i : Int} (hlow : -0x8000000000000000 ≤ i) (hhigh : i ≤ maxWord64) :
    ReadAs (.integer i) (value (.integer i)) := by
  intro outer r hr
  rw [readValue_integer, (integer_toString i r).readNumber_eq hr hlow hhigh]
  rfl

/-! ## Any scalar -/

theorem exists_readAs {x : Scalar} (h : x.Readable) : ∃ v, x.ReadAs v := by
  cases x with
  | text t => exact ⟨_, readAs_text t⟩
  | integer i =>
      obtain ⟨n, hread⟩ := (integer_toString_nil i).exists_readNumber h
      refine ⟨.number n, fun outer r hr => ?_⟩
      rw [readValue_integer, hread r hr]
      rfl

/-- An integer that is too great is refused at its end. -/
theorem readValue_refused {x : Scalar} (h : ¬ x.Readable) (outer : Nat) {r : Bytes}
    (hr : EndsNumber r) :
    readValue outer (utf8 x.print ++ r) = .error ⟨.numberOutOfRange, r.length, 0⟩ := by
  cases x with
  | text t => exact absurd trivial h
  | integer i =>
      rw [readValue_integer, (integer_toString_nil i).readNumber_refused hr (Nat.le_of_not_lt h)]
      rfl

theorem ReadAs.readable {x : Scalar} {v : Value} (h : x.ReadAs v) : x.Readable := by
  have hends : EndsNumber [] := fun b hb => by cases hb
  by_contra hx
  have hread := (h 0 [] hends).symm.trans (readValue_refused hx 0 hends)
  cases hread

theorem ReadAs.unique {x : Scalar} {v v' : Value} (h : x.ReadAs v) (h' : x.ReadAs v') : v = v' := by
  have hends : EndsNumber [] := fun b hb => by cases hb
  have hread := (h 0 [] hends).symm.trans (h' 0 [] hends)
  cases hread
  rfl

end Scalar

end Lineage.Json

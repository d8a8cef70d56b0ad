import Lineage.Text.Blank
import Lineage.Text.Hex
import Mathlib.Data.List.Induction

/-!
# Hexadecimal numbers read back

What is read is at least one digit of either case, perhaps behind a plus sign
(`unsignedHex?_eq_some_iff`).  The digits of a number as it is written are among them
(`hexDigits_toDigits`).
-/

namespace Lineage.Text

/-! ## Digits -/

/-- A hexadecimal digit of either case and its value. -/
inductive HexDigit : Char → Nat → Prop
  /-- In lower case. -/
  | lower {d : Nat} : d < 16 → HexDigit (Nat.digitChar d) d
  /-- In upper case. -/
  | upper {d : Nat} : d < 16 → HexDigit (Nat.digitChar d).toUpper d

/-- At least one hexadecimal digit, and the number that the digits make. -/
inductive HexDigits : List Char → Nat → Prop
  /-- One digit. -/
  | first {c : Char} {d : Nat} : HexDigit c d → HexDigits [c] d
  /-- One more digit. -/
  | snoc {cs : List Char} {n : Nat} {c : Char} {d : Nat} : HexDigits cs n → HexDigit c d →
    HexDigits (cs ++ [c]) (n * 16 + d)

/-- The hexadecimal texts of a number: digits, perhaps behind a plus sign. -/
inductive SpellsHex : List Char → Nat → Prop
  /-- Without a sign. -/
  | plain {cs : List Char} {n : Nat} : HexDigits cs n → SpellsHex cs n
  /-- Behind a plus sign. -/
  | plus {cs : List Char} {n : Nat} : HexDigits cs n → SpellsHex ('+' :: cs) n

theorem HexDigit.hexDigit?_eq {c : Char} {d : Nat} (h : HexDigit c d) : hexDigit? c = some d := by
  have hall : ∀ d < 16, hexDigit? (Nat.digitChar d) = some d ∧
      hexDigit? (Nat.digitChar d).toUpper = some d := by decide
  cases h with
  | lower hd => exact (hall d hd).1
  | upper hd => exact (hall d hd).2

theorem hexDigit_of_hexDigit? {c : Char} {d : Nat} (h : hexDigit? c = some d) : HexDigit c d := by
  -- A digit is one of the characters of the first half of ASCII, so all of them can be looked
  -- through.
  have hall : ∀ k < 128, ∀ d, hexDigit? (Char.ofNat k) = some d →
      d < 16 ∧ (Char.ofNat k = Nat.digitChar d ∨ Char.ofNat k = (Nat.digitChar d).toUpper) := by
    have hcheck : ∀ k < 128, ∀ d ∈ hexDigit? (Char.ofNat k),
        d < 16 ∧ (Char.ofNat k = Nat.digitChar d ∨
          Char.ofNat k = (Nat.digitChar d).toUpper) := by
      decide +kernel
    exact fun k hk d hd => hcheck k hk d hd
  have hlt : c.toNat < 128 := by
    unfold hexDigit? at h
    dsimp only at h
    split at h
    · omega
    split at h
    · omega
    split at h
    · omega
    · cases h
  rw [← Char.ofNat_toNat c] at h ⊢
  obtain ⟨hd, heq | heq⟩ := hall c.toNat hlt d h <;> rw [heq]
  · exact .lower hd
  · exact .upper hd

/-- No digit is a blank, a bar or a plus sign. -/
theorem HexDigit.apart {c : Char} {d : Nat} (h : HexDigit c d) :
    isBlank c = false ∧ c ≠ '|' ∧ c ≠ '+' := by
  have hall : ∀ d < 16, (isBlank (Nat.digitChar d) = false ∧ Nat.digitChar d ≠ '|' ∧
      Nat.digitChar d ≠ '+') ∧ isBlank (Nat.digitChar d).toUpper = false ∧
        (Nat.digitChar d).toUpper ≠ '|' ∧ (Nat.digitChar d).toUpper ≠ '+' := by decide
  cases h with
  | lower hd => exact (hall d hd).1
  | upper hd => exact (hall d hd).2

theorem HexDigits.ne_nil {cs : List Char} {n : Nat} (h : HexDigits cs n) : cs ≠ [] := by
  cases h <;> simp

theorem HexDigits.exists_hexDigit {cs : List Char} {n : Nat} (h : HexDigits cs n) {c : Char}
    (hc : c ∈ cs) :
    ∃ d, HexDigit c d := by
  induction h with
  | first hd =>
      rw [List.mem_singleton.mp hc]
      exact ⟨_, hd⟩
  | snoc _ hd ih =>
      rcases List.mem_append.mp hc with hfront | hlast
      · exact ih hfront
      · rw [List.mem_singleton.mp hlast]
        exact ⟨_, hd⟩

/-! ## Numbers -/

theorem hexNumber?_append (n : Nat) (cs ds : List Char) :
    hexNumber? n (cs ++ ds) = (hexNumber? n cs).bind fun m => hexNumber? m ds := by
  induction cs generalizing n with
  | nil => rfl
  | cons c cs ih =>
      rw [List.cons_append, hexNumber?, hexNumber?]
      split
      · exact ih _
      · rfl

theorem HexDigits.hexNumber?_eq {cs : List Char} {n : Nat} (h : HexDigits cs n) :
    hexNumber? 0 cs = some n := by
  induction h with
  | first hd => simp only [hexNumber?, hd.hexDigit?_eq, Nat.zero_mul, Nat.zero_add]
  | snoc _ hd ih => simp only [hexNumber?_append, ih, Option.bind_some, hexNumber?, hd.hexDigit?_eq]

theorem hexDigits_of_hexNumber? {cs : List Char} {n : Nat} (hne : cs ≠ [])
    (h : hexNumber? 0 cs = some n) :
    HexDigits cs n := by
  induction cs using List.reverseRecOn generalizing n with
  | nil => exact absurd rfl hne
  | append_singleton cs c ih =>
      rw [hexNumber?_append] at h
      obtain ⟨m, hm, hlast⟩ := Option.bind_eq_some_iff.mp h
      rw [hexNumber?] at hlast
      split at hlast
      · rename_i d hd
        cases hlast
        have hdigit := hexDigit_of_hexDigit? hd
        by_cases hcs : cs = []
        · subst hcs
          cases hm
          rw [Nat.zero_mul, Nat.zero_add]
          exact .first hdigit
        · exact .snoc (ih hcs hm) hdigit
      · cases hlast

/-- What is read is a number in hexadecimal. -/
theorem unsignedHex?_eq_some_iff {cs : List Char} {n : Nat} :
    unsignedHex? cs = some n ↔ SpellsHex cs n := by
  constructor
  · intro h
    unfold unsignedHex? at h
    split at h
    · cases h
    · cases h
    · rename_i ds hne
      exact .plus (hexDigits_of_hexNumber? (fun hnil => hne (by rw [hnil])) h)
    · rename_i hne _ _
      exact .plain (hexDigits_of_hexNumber? hne h)
  · intro h
    cases h with
    | plain hdigits =>
        cases cs with
        | nil => exact absurd rfl hdigits.ne_nil
        | cons c cs =>
            obtain ⟨d, hd⟩ := hdigits.exists_hexDigit (List.mem_cons_self ..)
            have hplus : c ≠ '+' := hd.apart.2.2
            unfold unsignedHex?
            split
            · rename_i heq
              cases heq
            · rename_i heq
              cases heq
              exact absurd rfl hplus
            · rename_i heq
              cases heq
              exact absurd rfl hplus
            · exact hdigits.hexNumber?_eq
    | @plus ds _ hdigits =>
        have hne := hdigits.ne_nil
        cases ds with
        | nil => exact absurd rfl hne
        | cons c ds => exact hdigits.hexNumber?_eq

/-- A number that is written in hexadecimal consists of digits that make it. -/
theorem hexDigits_toDigits (n : Nat) : HexDigits (Nat.toDigits 16 n) n := by
  induction n using Nat.strongRecOn with
  | ind n ih =>
      by_cases hlt : n < 16
      · rw [Nat.toDigits_of_lt_base hlt]
        exact .first (.lower hlt)
      · have hdigits := (ih (n / 16) (by omega)).snoc (.lower (Nat.mod_lt n (by decide)))
        rw [Nat.div_add_mod' n 16] at hdigits
        rw [Nat.toDigits_of_base_le (by decide) (Nat.le_of_not_lt hlt)]
        exact hdigits

end Lineage.Text

import Lineage.Json.Printer
import Lineage.Proofs.Json.Number
import Lineage.Proofs.Json.Text

/-!
# What is written belongs to the grammar

`printString` writes a string that stands for its text (`text_printString`), and a natural number in
decimal is one of the grammar (`whole_repr`).  No text that is written holds a control character
(`isPrinted_printString`, `isPrinted_printObject`), so it fits into a line.
-/

namespace Lineage.Json.Grammar

/-! ## Bytes of texts -/

theorem utf8_ofList (cs : List Char) :
    utf8 (String.ofList cs) = cs.flatMap String.utf8EncodeChar := by
  rw [utf8, String.toUTF8, String.toByteArray_ofList, List.utf8Encode, List.toList_data_toByteArray]

theorem utf8_eq (t : String) : utf8 t = t.toList.flatMap String.utf8EncodeChar := by
  rw [← utf8_ofList, String.ofList_toList]

@[simp] theorem utf8_append (t t' : String) : utf8 (t ++ t') = utf8 t ++ utf8 t' := by
  rw [utf8_eq, utf8_eq, utf8_eq, String.toList_append, List.flatMap_append]

/-- The first 128 characters are single bytes. -/
theorem utf8EncodeChar_of_lt {c : Char} (h : c.toNat < 0x80) :
    String.utf8EncodeChar c = [c.toNat.toUInt8] := by
  have hle : c.val.toNat ≤ 0x7f := Nat.le_of_lt_succ h
  rw [String.utf8EncodeChar, if_pos hle]
  rfl

/-- The bytes of any other character have their highest bit set. -/
theorem le_of_mem_utf8EncodeChar {c : Char} (h : 0x80 ≤ c.toNat) {b : UInt8}
    (hb : b ∈ String.utf8EncodeChar c) : 0x80 ≤ b := by
  obtain ⟨n, rfl, hlow, hhigh⟩ : ∃ n, b = UInt8.ofNat n ∧ 0x80 ≤ n ∧ n < 0x100 := by
    have hnot : ¬ c.val.toNat ≤ 0x7f := Nat.not_le_of_lt h
    rw [String.utf8EncodeChar, if_neg hnot] at hb
    split at hb
    · simp only [List.mem_cons, List.not_mem_nil, or_false] at hb
      rcases hb with rfl | rfl
      all_goals exact ⟨_, rfl, by omega, by omega⟩
    · split at hb
      · simp only [List.mem_cons, List.not_mem_nil, or_false] at hb
        rcases hb with rfl | rfl | rfl
        all_goals exact ⟨_, rfl, by omega, by omega⟩
      · simp only [List.mem_cons, List.not_mem_nil, or_false] at hb
        rcases hb with rfl | rfl | rfl | rfl
        all_goals exact ⟨_, rfl, by omega, by omega⟩
  rw [UInt8.le_iff_toNat_le, UInt8.toNat_ofNat', Nat.mod_eq_of_lt hhigh]
  exact hlow

/-! ## Strings -/

theorem isPlain_of_mem_utf8EncodeChar {c : Char} (hcontrol : ¬ c.toNat < 0x20) (hquote : c ≠ '"')
    (hbackslash : c ≠ '\\') {b : UInt8} (hb : b ∈ String.utf8EncodeChar c) : IsPlain b := by
  by_cases hc : c.toNat < 0x80
  · rw [utf8EncodeChar_of_lt hc, List.mem_singleton] at hb
    have hnat : b.toNat = c.toNat := by
      rw [hb, Nat.toUInt8, UInt8.toNat_ofNat']
      omega
    refine ⟨?_, ?_, ?_⟩
    · rw [UInt8.le_iff_toNat_le, hnat]
      exact Nat.le_of_not_lt hcontrol
    · rintro rfl
      exact hquote (Char.toNat_inj.mp hnat.symm)
    · rintro rfl
      exact hbackslash (Char.toNat_inj.mp hnat.symm)
  · have hle := le_of_mem_utf8EncodeChar (Nat.le_of_not_lt hc) hb
    rw [UInt8.le_iff_toNat_le] at hle
    refine ⟨?_, ?_, ?_⟩
    · rw [UInt8.le_iff_toNat_le]
      exact Nat.le_trans (by decide) hle
    all_goals
      rintro rfl
      exact absurd hle (by decide)

theorem TextBytes.append_plain {bs s t r : Bytes} (hbs : ∀ b ∈ bs, IsPlain b)
    (h : TextBytes s t r) :
    TextBytes (bs ++ s) (bs ++ t) r := by
  induction bs with
  | nil => exact h
  | cons b bs ih =>
      rw [List.forall_mem_cons] at hbs
      exact .plain hbs.1 (ih hbs.2)

theorem hexDigit_digitChar {n : Nat} (h : n < 16) : HexDigit (Nat.digitChar n).toNat.toUInt8 n := by
  have hall : ∀ m < 16, hexValue? (Nat.digitChar m).toNat.toUInt8 = some m := by decide
  exact hexValue?_eq_some_iff.mp (hall n h)

theorem digitChar_lt {n : Nat} (h : n < 16) : (Nat.digitChar n).toNat < 0x80 := by
  have hall : ∀ m < 16, (Nat.digitChar m).toNat < 0x80 := by decide
  exact hall n h

theorem codeUnit_hexEscape {n : Nat} (h : n < 0x20) (s : Bytes) :
    CodeUnit ((hexEscape n).flatMap String.utf8EncodeChar ++ s) n s := by
  have hhigh : n / 16 < 16 := by omega
  have hlow : n % 16 < 16 := by omega
  have hunit := CodeUnit.mk s (hexDigit_digitChar (n := 0) (by decide))
    (hexDigit_digitChar (n := 0) (by decide)) (hexDigit_digitChar hhigh) (hexDigit_digitChar hlow)
  have hn : ((0 * 16 + 0) * 16 + n / 16) * 16 + n % 16 = n := by omega
  rw [hn] at hunit
  simp only [hexEscape, List.flatMap_cons, List.flatMap_nil,
    utf8EncodeChar_of_lt (digitChar_lt hhigh), utf8EncodeChar_of_lt (digitChar_lt hlow),
    List.append_assoc, List.append_nil]
  exact hunit

/-- What is written for a character stands for it. -/
theorem textBytes_escapeChar (c : Char) {s t r : Bytes} (h : TextBytes s t r) :
    TextBytes ((escapeChar c).flatMap String.utf8EncodeChar ++ s)
      (String.utf8EncodeChar c ++ t) r := by
  have hletter : ∀ {b : UInt8} {c : Char}, EscapeLetter b c →
      TextBytes (backslash :: b :: s) (String.utf8EncodeChar c ++ t) r :=
    fun hb => .escape (.letter s hb) h
  unfold escapeChar
  split
  · subst c
    exact hletter .quote
  split
  · subst c
    exact hletter .backslash
  split
  · subst c
    exact hletter .backspace
  split
  · subst c
    exact hletter .tab
  split
  · subst c
    exact hletter .lineFeed
  split
  · subst c
    exact hletter .formFeed
  split
  · subst c
    exact hletter .carriageReturn
  split
  · rename_i hcontrol
    exact .escape (.code (codeUnit_hexEscape hcontrol s)) h
  · rename_i hquote hbackslash _ _ _ _ _ hcontrol
    rw [List.flatMap_singleton]
    exact .append_plain (fun b => isPlain_of_mem_utf8EncodeChar hcontrol hquote hbackslash) h

/-- A string that is written stands for its text. -/
theorem text_printString (t : String) (r : Bytes) : Text (utf8 (printString t) ++ r) t r := by
  have hbytes : ∀ cs : List Char,
      TextBytes ((cs.flatMap escapeChar).flatMap String.utf8EncodeChar ++ quote :: r)
        (cs.flatMap String.utf8EncodeChar) r := by
    intro cs
    induction cs with
    | nil => exact .close r
    | cons c cs ih =>
        rw [List.flatMap_cons, List.flatMap_append, List.append_assoc, List.flatMap_cons]
        exact textBytes_escapeChar c ih
  have hchars : utf8 (printString t) ++ r =
      quote :: ((t.toList.flatMap escapeChar).flatMap String.utf8EncodeChar ++ quote :: r) := by
    rw [printString, utf8_ofList, escaped, List.flatMap_cons,
      List.flatMap_append, List.append_assoc, List.append_assoc]
    rfl
  rw [hchars]
  exact .mk (utf8_eq t ▸ hbytes t.toList)

/-! ## Numbers -/

theorem Digits.snoc {n m : Nat} {b : UInt8} {s r : Bytes} (h : Digits n s m (b :: r))
    (hb : isDigit b = true) : Digits n s (m * 10 + digitValue b) r := by
  generalize hs : b :: r = s' at h
  induction h with
  | done =>
      subst hs
      exact .more hb (.done _ _)
  | more hdigit _ ih => exact .more hdigit (ih hs)

theorem isDigit_digitChar {n : Nat} (h : n < 10) :
    isDigit (Nat.digitChar n).toNat.toUInt8 = true ∧
      digitValue (Nat.digitChar n).toNat.toUInt8 = n := by
  have hall : ∀ m < 10, isDigit (Nat.digitChar m).toNat.toUInt8 = true ∧
      digitValue (Nat.digitChar m).toNat.toUInt8 = m := by decide
  exact hall n h

theorem utf8EncodeChar_digitChar {n : Nat} (h : n < 10) :
    String.utf8EncodeChar (Nat.digitChar n) = [(Nat.digitChar n).toNat.toUInt8] :=
  utf8EncodeChar_of_lt (digitChar_lt (Nat.lt_trans h (by decide)))

/-- The digits of a number other than zero begin with a digit other than zero. -/
theorem digits_toDigits {n : Nat} (hn : n ≠ 0) (r : Bytes) :
    ∃ b s, (Nat.toDigits 10 n).flatMap String.utf8EncodeChar ++ r = b :: s ∧
      isDigit b = true ∧ b ≠ 0x30 ∧
      Digits (digitValue b) s n r := by
  -- The last digit is put in front of the rest, and the number without it is smaller.
  induction n using Nat.strongRecOn generalizing r with
  | ind n ih =>
      by_cases hlt : n < 10
      · obtain ⟨hdigit, hvalue⟩ := isDigit_digitChar hlt
        refine ⟨_, r, ?_, hdigit, ?_, ?_⟩
        · rw [Nat.toDigits_of_lt_base hlt, List.flatMap_singleton, utf8EncodeChar_digitChar hlt]
          rfl
        · intro hzero
          rw [hzero] at hvalue
          exact hn hvalue.symm
        · rw [hvalue]
          exact .done n r
      · have hmod : n % 10 < 10 := Nat.mod_lt n (by decide)
        obtain ⟨hdigit, hvalue⟩ := isDigit_digitChar hmod
        obtain ⟨b, s, heq, hb, hzero, hdigits⟩ :=
          ih (n / 10) (by omega) (by omega) ((Nat.digitChar (n % 10)).toNat.toUInt8 :: r)
        refine ⟨b, s, ?_, hb, hzero, ?_⟩
        · rw [Nat.toDigits_of_base_le (by decide) (Nat.le_of_not_lt hlt), List.flatMap_append,
            List.flatMap_singleton, utf8EncodeChar_digitChar hmod, List.append_assoc]
          exact heq
        · have hsnoc := hdigits.snoc hdigit
          rw [hvalue, Nat.div_add_mod' n 10] at hsnoc
          exact hsnoc

/-- A natural number that is written in decimal is read as itself. -/
theorem whole_repr (n : Nat) (r : Bytes) : Whole (utf8 (toString n) ++ r) n r := by
  rw [Nat.toString_eq_repr, Nat.repr_eq_ofList_toDigits, utf8_ofList]
  by_cases hn : n = 0
  · subst hn
    exact .zero r
  · obtain ⟨b, s, heq, hdigit, hzero, hdigits⟩ := digits_toDigits hn r
    rw [heq]
    exact .digits hdigit hzero hdigits

/-! ## No control characters -/

/-- A text without control characters below the space. -/
def IsPrinted (t : String) : Prop := ∀ c ∈ t.toList, 0x20 ≤ c.toNat

/-- None of the bytes of such a text is a control character. -/
theorem IsPrinted.le_of_mem {t : String} (h : IsPrinted t) {b : UInt8} (hb : b ∈ utf8 t) :
    0x20 ≤ b := by
  rw [utf8_eq, List.mem_flatMap] at hb
  obtain ⟨c, hc, hb⟩ := hb
  have hcontrol := h c hc
  by_cases hlt : c.toNat < 0x80
  · rw [utf8EncodeChar_of_lt hlt, List.mem_singleton] at hb
    rw [hb, UInt8.le_iff_toNat_le, Nat.toUInt8, UInt8.toNat_ofNat', Nat.mod_eq_of_lt (by omega)]
    exact hcontrol
  · have hle := le_of_mem_utf8EncodeChar (Nat.le_of_not_lt hlt) hb
    rw [UInt8.le_iff_toNat_le] at hle ⊢
    exact Nat.le_trans (by decide) hle

theorem IsPrinted.append {t t' : String} (h : IsPrinted t) (h' : IsPrinted t') :
    IsPrinted (t ++ t') := by
  intro c hc
  rw [String.toList_append, List.mem_append] at hc
  exact hc.elim (h c) (h' c)

theorem le_of_mem_escapeChar (c : Char) : ∀ d ∈ escapeChar c, 0x20 ≤ d.toNat := by
  have hhex : ∀ n < 16, 0x20 ≤ (Nat.digitChar n).toNat := by decide
  have hletter : ∀ b : Char, 0x20 ≤ b.toNat → ∀ d ∈ ['\\', b], 0x20 ≤ d.toNat := by
    intro b hb d hd
    simp only [List.mem_cons, List.not_mem_nil, or_false] at hd
    rcases hd with rfl | rfl
    · decide
    · exact hb
  unfold escapeChar
  iterate 7
    split
    · exact hletter _ (by decide)
  split
  · intro d hd
    simp only [hexEscape, List.mem_cons, List.not_mem_nil, or_false] at hd
    rcases hd with rfl | rfl | rfl | rfl | rfl | rfl
    · decide
    · decide
    · decide
    · decide
    · exact hhex _ (by omega)
    · exact hhex _ (by omega)
  · rename_i hcontrol
    intro d hd
    rw [List.mem_singleton.mp hd]
    exact Nat.le_of_not_lt hcontrol

theorem isPrinted_printString (t : String) : IsPrinted (printString t) := by
  intro c hc
  simp only [printString, String.toList_ofList, escaped, List.mem_cons,
    List.mem_append, List.mem_flatMap, List.not_mem_nil, or_false] at hc
  rcases hc with rfl | ⟨d, _, hd⟩ | rfl
  · decide
  · exact le_of_mem_escapeChar d c hd
  · decide

theorem isPrinted_repr (n : Nat) : IsPrinted (toString n) := by
  intro c hc
  rw [Nat.toString_eq_repr, Nat.repr_eq_ofList_toDigits, String.toList_ofList] at hc
  have hdigit := Nat.isDigit_of_mem_toDigits (by decide) (by decide) hc
  rw [Char.isDigit, Bool.and_eq_true, decide_eq_true_eq] at hdigit
  exact Nat.le_trans (by decide) (UInt32.le_iff_toNat_le.mp hdigit.1)

theorem IsPrinted.intercalate {separator : String} {ts : List String}
    (hseparator : IsPrinted separator) (h : ∀ t ∈ ts, IsPrinted t) :
    IsPrinted (separator.intercalate ts) := by
  induction ts with
  | nil => exact fun c hc => absurd hc (by simp)
  | cons t ts ih =>
      rw [List.forall_mem_cons] at h
      cases ts with
      | nil =>
          rw [String.intercalate_singleton]
          exact h.1
      | cons t' ts =>
          rw [String.intercalate_cons_cons]
          exact (h.1.append hseparator).append (ih h.2)

theorem isPrinted_of_toList_eq {t : String} {c : Char} (h : t.toList = [c])
    (hc : 0x20 ≤ c.toNat) :
    IsPrinted t := by
  intro d hd
  rw [h, List.mem_singleton] at hd
  exact hd ▸ hc

theorem isPrinted_printObject {members : List (String × String)}
    (h : ∀ m ∈ members, IsPrinted m.2) :
    IsPrinted (printObject members) := by
  have hcolon : IsPrinted ":" := isPrinted_of_toList_eq rfl (by decide)
  have hcomma : IsPrinted "," := isPrinted_of_toList_eq rfl (by decide)
  have hopen : IsPrinted "\x7b" := isPrinted_of_toList_eq rfl (by decide)
  have hclose : IsPrinted "\x7d" := isPrinted_of_toList_eq rfl (by decide)
  have hmember : ∀ t ∈ members.map fun m => printString m.1 ++ ":" ++ m.2, IsPrinted t := by
    intro t ht
    obtain ⟨m, hm, rfl⟩ := List.mem_map.mp ht
    exact ((isPrinted_printString m.1).append hcolon).append (h m hm)
  exact (hopen.append (.intercalate hcomma hmember)).append hclose

end Lineage.Json.Grammar

import Lineage.Proofs.Json.NumberLiteral
import Lineage.Proofs.Json.Printer

/-!
# UTF-8 in the grammar

A text is UTF-8 if and only if what is in front of a character and what is behind it are so
(`isUtf8_append_encode_iff`).  Therefore the texts of the grammar can be judged piece by piece.  All
of them consist of ASCII up to the insides of strings.  A string that is decoded stands for a text
and is UTF-8 with it (`utf8To_text`), while nothing is known about the inside of a string that is
only skipped.
-/

namespace Lineage.Json.Grammar

/-- Bytes that are UTF-8, which is to say the encodings of some characters. -/
def IsUtf8 (s : Bytes) : Prop := ∃ cs : List Char, s = cs.flatMap String.utf8EncodeChar

theorem isUtf8_utf8 (t : String) : IsUtf8 (utf8 t) := ⟨t.toList, utf8_eq t⟩

theorem isUtf8_nil : IsUtf8 [] := ⟨[], rfl⟩

theorem isUtf8_encode (c : Char) : IsUtf8 (String.utf8EncodeChar c) :=
  ⟨[c], (List.flatMap_singleton _ c).symm⟩

theorem IsUtf8.append {s s' : Bytes} (h : IsUtf8 s) (h' : IsUtf8 s') : IsUtf8 (s ++ s') := by
  obtain ⟨cs, rfl⟩ := h
  obtain ⟨cs', rfl⟩ := h'
  exact ⟨cs ++ cs', List.flatMap_append.symm⟩

/-! ## Characters in a text -/

/-- The bytes of a character are one that begins characters and others that do not. -/
theorem exists_utf8EncodeChar_eq (c : Char) : ∃ b t, String.utf8EncodeChar c = b :: t ∧
    b.IsUTF8FirstByte ∧ ∀ b' ∈ t, ¬ b'.IsUTF8FirstByte := by
  have hiff := @UInt8.isUTF8FirstByte_getElem_utf8EncodeChar c
  cases h : String.utf8EncodeChar c with
  | nil => exact absurd h String.utf8EncodeChar_ne_nil
  | cons b t =>
      simp only [h] at hiff
      refine ⟨b, t, rfl, (@hiff 0 (Nat.succ_pos _)).mpr rfl, fun b' hb' hfirst => ?_⟩
      obtain ⟨i, hi, rfl⟩ := List.getElem_of_mem hb'
      exact absurd ((@hiff (i + 1) (Nat.succ_lt_succ hi)).mp hfirst) (Nat.succ_ne_zero i)

theorem IsUtf8.isUTF8FirstByte {b : UInt8} {s : Bytes} (h : IsUtf8 (b :: s)) :
    b.IsUTF8FirstByte := by
  obtain ⟨cs, hcs⟩ := h
  cases cs with
  | nil => cases hcs
  | cons c cs =>
      obtain ⟨b', t, hencode, hfirst, -⟩ := exists_utf8EncodeChar_eq c
      rw [List.flatMap_cons, hencode, List.cons_append, List.cons.injEq] at hcs
      rw [hcs.1]
      exact hfirst

/-- A text can be cut in front of a byte that begins characters. -/
theorem IsUtf8.split {x y : Bytes} (h : IsUtf8 (x ++ y))
    (hy : ∀ b ∈ y.head?, b.IsUTF8FirstByte) :
    IsUtf8 x ∧ IsUtf8 y := by
  obtain ⟨cs, hcs⟩ := h
  induction cs generalizing x with
  | nil =>
      obtain ⟨rfl, rfl⟩ := List.append_eq_nil_iff.mp hcs
      exact ⟨isUtf8_nil, isUtf8_nil⟩
  | cons c cs ih =>
      cases x with
      | nil => exact ⟨isUtf8_nil, c :: cs, hcs⟩
      | cons b x =>
          rw [List.flatMap_cons] at hcs
          rcases List.append_eq_append_iff.mp hcs with ⟨z, hz, rfl⟩ | ⟨x', hx', hrest⟩
          · -- The cut is not inside the first character, because `y` would begin with a byte of
            -- its rest.
            obtain ⟨b', t, hencode, -, hothers⟩ := exists_utf8EncodeChar_eq c
            cases z with
            | nil =>
                exact ⟨⟨[c], by rw [List.flatMap_singleton, hz, List.append_nil]⟩, cs, rfl⟩
            | cons b'' z =>
                rw [hencode, List.cons_append, List.cons.injEq] at hz
                have hmem : b'' ∈ t := hz.2 ▸ List.mem_append_right x List.mem_cons_self
                exact absurd (hy b'' rfl) (hothers b'' hmem)
          · obtain ⟨hx, hy'⟩ := ih hrest.symm
            rw [hx']
            exact ⟨(isUtf8_encode c).append hx, hy'⟩

theorem IsUtf8.of_encode_append {c : Char} {s : Bytes} (h : IsUtf8 (String.utf8EncodeChar c ++ s)) :
    IsUtf8 s := by
  obtain ⟨cs, hcs⟩ := h
  cases cs with
  | nil => exact absurd (List.append_eq_nil_iff.mp hcs).1 String.utf8EncodeChar_ne_nil
  | cons d cs =>
      rw [List.flatMap_cons] at hcs
      have hdecode : ∀ (c : Char) (s : Bytes),
          (String.utf8EncodeChar c ++ s).toByteArray.utf8DecodeChar? 0 = some c := by
        intro c s
        rw [List.toByteArray_append]
        exact ByteArray.utf8DecodeChar?_utf8EncodeChar_append
      have hsame := hdecode c s
      rw [hcs, hdecode d] at hsame
      cases hsame
      exact ⟨cs, List.append_cancel_left hcs⟩

/-- A text is UTF-8 around a character if and only if it is so in front of it and behind it. -/
theorem isUtf8_append_encode_iff {x y : Bytes} {c : Char} :
    IsUtf8 (x ++ (String.utf8EncodeChar c ++ y)) ↔ IsUtf8 x ∧ IsUtf8 y := by
  constructor
  · intro h
    obtain ⟨b, t, hencode, hfirst, -⟩ := exists_utf8EncodeChar_eq c
    have hhead : ∀ b' ∈ (String.utf8EncodeChar c ++ y).head?, b'.IsUTF8FirstByte := by
      rw [hencode]
      intro b' hb'
      cases hb'
      exact hfirst
    obtain ⟨hx, hy⟩ := h.split hhead
    exact ⟨hx, hy.of_encode_append⟩
  · rintro ⟨hx, hy⟩
    exact hx.append ((isUtf8_encode c).append hy)

/-- A byte of ASCII is a character of its own. -/
theorem exists_utf8EncodeChar_of_lt {b : UInt8} (h : b < 0x80) :
    ∃ c, String.utf8EncodeChar c = [b] := by
  have hlt : b.toNat < 0x80 := h
  have hvalid : b.toNat.isValidChar := .inl (Nat.lt_trans hlt (by decide))
  have hnat : (Char.ofNat b.toNat).toNat = b.toNat := by
    rw [Char.ofNat, dif_pos hvalid]
    rfl
  refine ⟨Char.ofNat b.toNat, ?_⟩
  rw [utf8EncodeChar_of_lt (hnat.symm ▸ hlt), hnat]
  simp

theorem isUtf8_append_cons_iff {x y : Bytes} {b : UInt8} (hb : b < 0x80) :
    IsUtf8 (x ++ b :: y) ↔ IsUtf8 x ∧ IsUtf8 y := by
  obtain ⟨c, hc⟩ := exists_utf8EncodeChar_of_lt hb
  have hsplit := @isUtf8_append_encode_iff x y c
  rwa [hc] at hsplit

/-! ## Texts in front of others -/

/-- What is in front of `r` in `s` is UTF-8. -/
def Utf8To (s r : Bytes) : Prop := ∃ u, s = u ++ r ∧ IsUtf8 u

section

variable {s s₁ r : Bytes} {b : UInt8}

theorem Utf8To.refl (s : Bytes) : Utf8To s s := ⟨[], rfl, isUtf8_nil⟩

theorem Utf8To.trans (h : Utf8To s s₁) (h' : Utf8To s₁ r) : Utf8To s r := by
  obtain ⟨u, rfl, hu⟩ := h
  obtain ⟨u', rfl, hu'⟩ := h'
  exact ⟨u ++ u', (List.append_assoc u u' r).symm, hu.append hu'⟩

theorem Utf8To.cons (h : Utf8To s r) (hb : b < 0x80) : Utf8To (b :: s) r := by
  obtain ⟨u, rfl, hu⟩ := h
  exact ⟨b :: u, rfl, (isUtf8_append_cons_iff hb).mpr ⟨isUtf8_nil, hu⟩⟩

theorem Utf8To.byte (h : Utf8To s (b :: r)) (hb : b < 0x80) : Utf8To s r :=
  h.trans ((Utf8To.refl r).cons hb)

theorem Utf8To.isUtf8 (h : Utf8To s []) : IsUtf8 s := by
  obtain ⟨u, rfl, hu⟩ := h
  rwa [List.append_nil]

end

/-! ## The grammar outside of strings -/

theorem lt_of_isBlank {b : UInt8} (h : isBlank b = true) : b < 0x80 := by
  simp only [isBlank, Bool.or_eq_true, beq_iff_eq] at h
  rcases h with ((rfl | rfl) | rfl) | rfl <;> decide

theorem lt_of_isDigit {b : UInt8} (h : isDigit b = true) : b < 0x80 := by
  rw [isDigit, Bool.and_eq_true, decide_eq_true_eq, decide_eq_true_eq] at h
  exact UInt8.lt_of_le_of_lt h.2 (by decide)

theorem lt_of_isExponentMark {b : UInt8} (h : isExponentMark b = true) : b < 0x80 := by
  rw [isExponentMark, Bool.or_eq_true, beq_iff_eq, beq_iff_eq] at h
  rcases h with rfl | rfl <;> decide

theorem HexDigit.lt_ascii {b : UInt8} {n : Nat} (h : HexDigit b n) : b < 0x80 := by
  cases h with
  | decimal _ hle => exact UInt8.lt_of_le_of_lt hle (by decide)
  | upper _ hle => exact UInt8.lt_of_le_of_lt hle (by decide)
  | lower _ hle => exact UInt8.lt_of_le_of_lt hle (by decide)

theorem EscapeLetter.lt_ascii {b : UInt8} {c : Char} (h : EscapeLetter b c) : b < 0x80 := by
  cases h <;> decide

section

variable {s r : Bytes}

theorem utf8To_blanks (h : Blanks s r) : Utf8To s r := by
  induction h with
  | done s => exact .refl s
  | more hb _ ih => exact ih.cons (lt_of_isBlank hb)

theorem utf8To_digits {n m : Nat} (h : Digits n s m r) : Utf8To s r := by
  induction h with
  | done _ s => exact .refl s
  | more hb _ ih => exact ih.cons (lt_of_isDigit hb)

theorem utf8To_whole {n : Nat} (h : Whole s n r) : Utf8To s r := by
  cases h with
  | zero r => exact (Utf8To.refl r).cons (by decide)
  | digits hb _ hdigits => exact (utf8To_digits hdigits).cons (lt_of_isDigit hb)

theorem utf8To_someDigits (h : SomeDigits s r) : Utf8To s r := by
  cases h with
  | mk hb hdigits => exact (utf8To_digits hdigits).cons (lt_of_isDigit hb)

theorem utf8To_sign (h : Sign s r) : Utf8To s r := by
  cases h with
  | absent s => exact .refl s
  | present r => exact (Utf8To.refl r).cons (by decide)

theorem utf8To_fraction (h : Fraction s r) : Utf8To s r := by
  cases h with
  | absent s => exact .refl s
  | digits hdigits => exact (utf8To_someDigits hdigits).cons (by decide)

theorem utf8To_exponent (h : Exponent s r) : Utf8To s r := by
  cases h with
  | absent s => exact .refl s
  | digits hmark hdigits => exact (utf8To_someDigits hdigits).cons (lt_of_isExponentMark hmark)
  | signed hmark hsign hdigits =>
      rcases hsign with rfl | rfl
      all_goals
        exact ((utf8To_someDigits hdigits).cons (by decide)).cons (lt_of_isExponentMark hmark)

theorem utf8To_numeral (h : Numeral s r) : Utf8To s r := by
  cases h with
  | mk hsign hwhole hfraction hexponent =>
      exact ((utf8To_sign hsign).trans (utf8To_whole hwhole)).trans
        ((utf8To_fraction hfraction).trans (utf8To_exponent hexponent))

theorem utf8To_word {w : String} (h : w ∈ ["null", "true", "false"]) (r : Bytes) :
    Utf8To (ascii w ++ r) r := by
  simp only [List.mem_cons, List.not_mem_nil, or_false] at h
  refine ⟨ascii w, rfl, ?_⟩
  rcases h with rfl | rfl | rfl
  · exact isUtf8_utf8 "null"
  · exact isUtf8_utf8 "true"
  · exact isUtf8_utf8 "false"

theorem utf8To_codeUnit {n : Nat} (h : CodeUnit s n r) : Utf8To s r := by
  cases h with
  | mk r ha hb hc hd =>
      have hdigits :=
        ((((Utf8To.refl r).cons hd.lt_ascii).cons hc.lt_ascii).cons hb.lt_ascii).cons ha.lt_ascii
      exact (hdigits.cons (by decide)).cons (by decide)

theorem utf8To_escape {c : Char} (h : Escape s c r) : Utf8To s r := by
  cases h with
  | letter r hletter => exact ((Utf8To.refl r).cons hletter.lt_ascii).cons (by decide)
  | code hunit => exact utf8To_codeUnit hunit
  | pair hunit hunit' => exact (utf8To_codeUnit hunit).trans (utf8To_codeUnit hunit')

end

/-! ## Strings that are decoded -/

/-- The inside of a string is UTF-8 if what it stands for is so.  A text `x` in front of both allows
for the bytes of a character that has begun. -/
theorem exists_inside_of_textBytes {s t r x : Bytes} (h : TextBytes s t r) (hx : IsUtf8 (x ++ t)) :
    ∃ inside, s = inside ++ quote :: r ∧ IsUtf8 (x ++ inside) := by
  induction h generalizing x with
  | close r => exact ⟨[], rfl, hx⟩
  | @plain b s t r hplain _ ih =>
      rw [List.append_cons] at hx
      obtain ⟨inside, rfl, hinside⟩ := ih hx
      rw [← List.append_cons] at hinside
      exact ⟨b :: inside, rfl, hinside⟩
  | @escape c s s' t r hescape _ ih =>
      obtain ⟨hfront, ht⟩ := isUtf8_append_encode_iff.mp hx
      obtain ⟨e, rfl, he⟩ := utf8To_escape hescape
      obtain ⟨inside, rfl, hinside⟩ := @ih [] ht
      exact ⟨e ++ inside, (List.append_assoc _ _ _).symm, hfront.append (he.append hinside)⟩

theorem utf8To_text {s r : Bytes} {t : String} (h : Text s t r) : Utf8To s r := by
  cases h with
  | mk hbytes =>
      obtain ⟨inside, rfl, hinside⟩ :=
        exists_inside_of_textBytes hbytes (isUtf8_nil.append (isUtf8_utf8 t))
      have hquoted : Utf8To (inside ++ quote :: r) (quote :: r) := ⟨inside, rfl, hinside⟩
      exact (hquoted.byte (by decide)).cons (by decide)

end Lineage.Json.Grammar

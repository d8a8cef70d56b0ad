import Lineage.Proofs.Json.Grammar

/-!
# Strings as they are read

The two readers of strings accept what the grammar derives and nothing else, and they stop where it
does: `readText_ok_iff` for those that are decoded, and `skipText_ok_iff` for those that are
skipped.
-/

namespace Lineage.Json.Grammar

/-! ## Escapes -/

theorem hexValue?_eq_some_iff {b : UInt8} {n : Nat} : hexValue? b = some n ↔ HexDigit b n := by
  constructor
  · intro h
    unfold hexValue? isDigit at h
    split at h
    · rename_i hd
      rw [Bool.and_eq_true, decide_eq_true_eq, decide_eq_true_eq] at hd
      cases h
      exact .decimal hd.1 hd.2
    · split at h
      · rename_i hd
        cases h
        exact .upper hd.1 hd.2
      · split at h
        · rename_i hd
          cases h
          exact .lower hd.1 hd.2
        · cases h
  · intro h
    cases h with
    | decimal h₁ h₂ => simp [hexValue?, isDigit, h₁, h₂]
    | upper h₁ h₂ =>
        have hnot : ¬ b ≤ 0x39 := by
          rw [UInt8.le_iff_toNat_le] at h₁ ⊢
          simp at h₁ ⊢
          omega
        simp [hexValue?, isDigit, h₁, h₂, hnot]
    | lower h₁ h₂ =>
        have hnot : ¬ b ≤ 0x39 ∧ ¬ b ≤ 0x46 := by
          simp only [UInt8.le_iff_toNat_le] at h₁ ⊢
          simp at h₁ ⊢
          omega
        simp [hexValue?, isDigit, h₁, h₂, hnot.1, hnot.2]

theorem HexDigit.lt {b : UInt8} {n : Nat} (h : HexDigit b n) : n < 16 := by
  cases h with
  | decimal h₁ h₂ | upper h₁ h₂ | lower h₁ h₂ =>
      simp only [UInt8.le_iff_toNat_le] at h₁ h₂
      simp at h₁ h₂
      omega

theorem shortEscape?_eq_some_iff {b : UInt8} {c : Char} :
    shortEscape? b = some c ↔ EscapeLetter b c := by
  constructor
  · intro h
    unfold shortEscape? at h
    repeat' split at h
    all_goals cases h
    all_goals subst_vars; constructor
  · intro h
    cases h <;> rfl

/-- Four digits are read behind a backslash and the letter `u`. -/
theorem readHex_ok_iff {s r : Bytes} {n : Nat} :
    readHex s = .ok (n, r) ↔ CodeUnit (backslash :: hexLetter :: s) n r := by
  constructor
  · intro h
    unfold readHex at h
    split at h
    · split at h
      · rename_i ha hb hc hd
        cases h
        exact .mk r (hexValue?_eq_some_iff.mp ha) (hexValue?_eq_some_iff.mp hb)
          (hexValue?_eq_some_iff.mp hc) (hexValue?_eq_some_iff.mp hd)
      · cases h
    · cases h
  · intro h
    cases h with
    | mk _ ha hb hc hd =>
        simp only [readHex, hexValue?_eq_some_iff.mpr ha, hexValue?_eq_some_iff.mpr hb,
          hexValue?_eq_some_iff.mpr hc, hexValue?_eq_some_iff.mpr hd]

theorem CodeUnit.lt {s r : Bytes} {n : Nat} (h : CodeUnit s n r) : n < 0x10000 := by
  cases h with
  | mk _ ha hb hc hd =>
      have := ha.lt
      have := hb.lt
      have := hc.lt
      have := hd.lt
      omega

theorem CodeUnit.exists_eq {s r : Bytes} {n : Nat} (h : CodeUnit s n r) :
    ∃ u, s = backslash :: hexLetter :: u := by
  cases h with
  | mk => exact ⟨_, rfl⟩

theorem not_escapeLetter_hexLetter {c : Char} : ¬ EscapeLetter hexLetter c := by
  intro h
  cases h

theorem isLead_iff {n : Nat} : isLead n = true ↔ 0xd800 ≤ n ∧ n ≤ 0xdbff := by
  rw [isLead, Bool.and_eq_true, decide_eq_true_eq, decide_eq_true_eq]

theorem isTrail_iff {n : Nat} : isTrail n = true ↔ 0xdc00 ≤ n ∧ n ≤ 0xdfff := by
  rw [isTrail, Bool.and_eq_true, decide_eq_true_eq, decide_eq_true_eq]

/-- A code unit below the surrogates or above them is the code of a character. -/
theorem toNat_ofNat_of_lt {n : Nat} (hn : n < 0x10000) (hlead : isLead n = false)
    (htrail : isTrail n = false) : (Char.ofNat n).toNat = n := by
  have hvalid : n.isValidChar := by
    rw [← Bool.not_eq_true, isLead_iff] at hlead
    rw [← Bool.not_eq_true, isTrail_iff] at htrail
    simp only [Nat.isValidChar]
    omega
  rw [Char.ofNat, dif_pos hvalid]
  rfl

theorem toNat_pairChar {lead trail : Nat} (hlead : isLead lead = true)
    (htrail : isTrail trail = true) :
    (pairChar lead trail).toNat = 0x10000 + (lead - 0xd800) * 0x400 + (trail - 0xdc00) := by
  have hvalid : (0x10000 + (lead - 0xd800) * 0x400 + (trail - 0xdc00)).isValidChar := by
    rw [isLead_iff] at hlead
    rw [isTrail_iff] at htrail
    simp only [Nat.isValidChar]
    omega
  rw [pairChar, Char.ofNat, dif_pos hvalid]
  rfl

/-- The code of a character is no surrogate. -/
theorem isLead_toNat (c : Char) : isLead c.toNat = false ∧ isTrail c.toNat = false := by
  have hvalid : c.toNat.isValidChar := c.valid
  simp only [Nat.isValidChar] at hvalid
  rw [← Bool.not_eq_true, ← Bool.not_eq_true, isLead_iff, isTrail_iff]
  omega

/-- The second half of a pair is read behind the first one. -/
theorem readTrail_ok_iff {lead : Nat} {s r : Bytes} {c : Char} :
    readTrail lead s = .ok (c, r) ↔
      ∃ trail, CodeUnit s trail r ∧ isTrail trail = true ∧ c = pairChar lead trail := by
  constructor
  · intro h
    unfold readTrail at h
    split at h
    · cases h
    · split at h
      · rename_i hb
        split at h
        · cases h
        · split at h
          · rename_i hu
            split at h
            · cases h
            · rename_i trail r' hread
              have hunit := readHex_ok_iff.mp hread
              split at h
              · rename_i htrail
                obtain ⟨hchar, hrest⟩ := Prod.mk.inj (Except.ok.inj h)
                rw [hb, hu, ← hrest]
                exact ⟨trail, hunit, htrail, hchar.symm⟩
              · cases h
          · cases h
      · cases h
  · rintro ⟨trail, hunit, htrail, hchar⟩
    obtain ⟨u, rfl⟩ := hunit.exists_eq
    simp only [readTrail, if_true, readHex_ok_iff.mpr hunit, htrail, hchar]

/-- What is read behind a backslash is an escape. -/
theorem escape_of_readEscape {s r : Bytes} {c : Char} (h : readEscape s = .ok (c, r)) :
    Escape (backslash :: s) c r := by
  unfold readEscape at h
  split at h
  · cases h
  · split at h
    · rename_i hb
      subst hb
      split at h
      · cases h
      · rename_i n r' hread
        have hunit := readHex_ok_iff.mp hread
        split at h
        · cases h
        · rename_i htrail
          split at h
          · rename_i hlead
            obtain ⟨trail, hunit', htrail', hchar⟩ := readTrail_ok_iff.mp h
            have htoNat := toNat_pairChar hlead htrail'
            rw [← hchar] at htoNat
            obtain ⟨h₁, h₂⟩ := isLead_iff.mp hlead
            obtain ⟨h₃, h₄⟩ := isTrail_iff.mp htrail'
            exact .pair hunit hunit' h₁ h₂ h₃ h₄ htoNat
          · rename_i hlead
            cases h
            refine .code ?_
            have htoNat := toNat_ofNat_of_lt hunit.lt (eq_false_of_ne_true hlead)
              (eq_false_of_ne_true htrail)
            rwa [htoNat]
    · split at h
      · rename_i hletter
        cases h
        exact .letter r (shortEscape?_eq_some_iff.mp hletter)
      · cases h

/-- An escape is read behind its backslash. -/
theorem Escape.readEscape_eq {s r : Bytes} {c : Char} (h : Escape (backslash :: s) c r) :
    readEscape s = .ok (c, r) := by
  cases h with
  | @letter b _ _ hletter =>
      have hne : b ≠ hexLetter := by
        rintro rfl
        exact not_escapeLetter_hexLetter hletter
      simp only [readEscape, if_neg hne, shortEscape?_eq_some_iff.mpr hletter]
  | code hunit =>
      obtain ⟨u, heq⟩ := hunit.exists_eq
      cases heq
      obtain ⟨hlead, htrail⟩ := isLead_toNat c
      simp only [readEscape, if_true, readHex_ok_iff.mpr hunit, htrail, hlead, Bool.false_eq_true,
        if_false, Char.ofNat_toNat]
  | @pair _ lead trail _ s₁ _ hunit hunit' h₁ h₂ h₃ h₄ htoNat =>
      obtain ⟨u, heq⟩ := hunit.exists_eq
      cases heq
      have hlead : isLead lead = true := isLead_iff.mpr ⟨h₁, h₂⟩
      have htrail : isTrail trail = true := isTrail_iff.mpr ⟨h₃, h₄⟩
      have hnot : isTrail lead = false := by
        rw [← Bool.not_eq_true, isTrail_iff]
        omega
      have hchar : c = pairChar lead trail := by
        rw [← Char.toNat_inj, htoNat, toNat_pairChar hlead htrail]
      simp only [readEscape, if_true, readHex_ok_iff.mpr hunit, hnot, hlead, Bool.false_eq_true,
        if_false]
      exact readTrail_ok_iff.mpr ⟨trail, hunit', htrail, hchar⟩

theorem readEscape_ok_iff {s r : Bytes} {c : Char} :
    readEscape s = .ok (c, r) ↔ Escape (backslash :: s) c r :=
  ⟨escape_of_readEscape, Escape.readEscape_eq⟩

theorem Escape.exists_eq {s r : Bytes} {c : Char} (h : Escape s c r) :
    ∃ u, s = backslash :: u := by
  cases h with
  | letter => exact ⟨_, rfl⟩
  | code hunit => exact ⟨_, hunit.exists_eq.choose_spec⟩
  | pair hunit => exact ⟨_, hunit.exists_eq.choose_spec⟩

/-- An escape with a letter is skipped as one with a code unit is, whatever they stand for. -/
theorem skipEscape_ok_iff {s r : Bytes} :
    skipEscape s = .ok r ↔
      (∃ b c, s = b :: r ∧ EscapeLetter b c) ∨ ∃ n, CodeUnit (backslash :: s) n r := by
  constructor
  · intro h
    unfold skipEscape at h
    split at h
    · cases h
    · split at h
      · rename_i hb
        split at h
        · cases h
        · rename_i n _ hread
          have hunit := readHex_ok_iff.mp hread
          cases h
          rw [hb]
          exact .inr ⟨n, hunit⟩
      · split at h
        · rename_i c hletter
          cases h
          exact .inl ⟨_, c, rfl, shortEscape?_eq_some_iff.mp hletter⟩
        · cases h
  · rintro (⟨b, c, rfl, hletter⟩ | ⟨n, hunit⟩)
    · have hne : b ≠ hexLetter := by
        rintro rfl
        exact not_escapeLetter_hexLetter hletter
      simp only [skipEscape, if_neg hne, shortEscape?_eq_some_iff.mpr hletter]
    · obtain ⟨u, heq⟩ := hunit.exists_eq
      cases heq
      simp only [skipEscape, if_true, readHex_ok_iff.mpr hunit]

/-! ## Whole strings -/

theorem isPlain_iff {b : UInt8} :
    IsPlain b ↔ b ≠ quote ∧ b ≠ backslash ∧ ¬ b < 0x20 := by
  rw [IsPlain, UInt8.not_lt]
  exact ⟨fun h => ⟨h.2.1, h.2.2, h.1⟩, fun h => ⟨h.2.2, h.1, h.2.1⟩⟩

theorem textBytes_of_readTextBytes {done s u r : Bytes} (h : readTextBytes done s = .ok (u, r)) :
    ∃ t, TextBytes s t r ∧ u = done.reverse ++ t := by
  fun_induction readTextBytes done s with
  | case1 => cases h
  | case2 =>
      cases h
      exact ⟨[], .close r, (List.append_nil _).symm⟩
  | case3 => cases h
  | case4 done r₁ c r₂ hread hne ih =>
      obtain ⟨t, ht, rfl⟩ := ih h
      refine ⟨_, .escape (readEscape_ok_iff.mp hread) ht, ?_⟩
      rw [List.reverse_append, List.reverse_reverse, List.append_assoc]
  | case5 => cases h
  | case6 done b r₁ hquote hback hcontrol ih =>
      obtain ⟨t, ht, rfl⟩ := ih h
      refine ⟨b :: t, .plain (isPlain_iff.mpr ⟨hquote, hback, hcontrol⟩) ht, ?_⟩
      rw [List.reverse_cons, List.append_assoc]
      rfl

theorem TextBytes.readTextBytes_eq {s t r : Bytes} (h : TextBytes s t r) (done : Bytes) :
    readTextBytes done s = .ok (done.reverse ++ t, r) := by
  induction h generalizing done with
  | close r => rw [readTextBytes, if_pos rfl, List.append_nil]
  | plain hplain _ ih =>
      obtain ⟨hquote, hback, hcontrol⟩ := isPlain_iff.mp hplain
      rw [readTextBytes, if_neg hquote, if_neg hback, if_neg hcontrol, ih, List.reverse_cons,
        List.append_assoc]
      rfl
  | escape hescape _ ih =>
      obtain ⟨u, rfl⟩ := hescape.exists_eq
      rw [readTextBytes, if_neg (by decide), if_pos rfl]
      split
      · rename_i hread
        rw [readEscape_ok_iff.mpr hescape] at hread
        cases hread
      · rename_i hread
        rw [readEscape_ok_iff.mpr hescape] at hread
        cases hread
        rw [ih, List.reverse_append, List.reverse_reverse, List.append_assoc]

theorem toByteArray_utf8 (text : String) : (utf8 text).toByteArray = text.toByteArray := by
  refine ByteArray.ext ?_
  rw [List.data_toByteArray, utf8, Array.toArray_toList]
  rfl

theorem fromUTF8?_eq_some_iff {t : Bytes} {text : String} :
    String.fromUTF8? t.toByteArray = some text ↔ t = utf8 text := by
  unfold String.fromUTF8?
  constructor
  · intro h
    split at h
    · cases h
      exact List.toList_data_toByteArray.symm
    · cases h
  · rintro rfl
    rw [toByteArray_utf8, dif_pos text.isValidUTF8]
    rfl

/-- A string is decoded as the grammar says, up to its closing quote. -/
theorem readText_ok_iff {s r : Bytes} {text : String} :
    readText s = .ok (text, r) ↔ Text (quote :: s) text r := by
  constructor
  · intro h
    unfold readText at h
    split at h
    · cases h
    · rename_i t r' hread
      obtain ⟨u, hu, rfl⟩ := textBytes_of_readTextBytes hread
      dsimp only at h
      split at h
      · rename_i hvalid
        cases h
        rw [fromUTF8?_eq_some_iff] at hvalid
        rw [hvalid] at hu
        exact .mk hu
      · cases h
  · intro h
    cases h with
    | mk hbytes =>
        rw [readText, hbytes.readTextBytes_eq, List.reverse_nil, List.nil_append]
        dsimp only
        rw [fromUTF8?_eq_some_iff.mpr rfl]

theorem skipped_of_skipText {s r : Bytes} (h : skipText s = .ok r) : Skipped s r := by
  fun_induction skipText s with
  | case1 => cases h
  | case2 =>
      cases h
      exact .close r
  | case3 => cases h
  | case4 r₁ r₂ hskip hne ih =>
      rcases skipEscape_ok_iff.mp hskip with ⟨b, c, rfl, hletter⟩ | ⟨n, hunit⟩
      · exact .letter hletter (ih h)
      · exact .code hunit (ih h)
  | case5 => cases h
  | case6 b r₁ hquote hback hcontrol ih =>
      exact .plain (isPlain_iff.mpr ⟨hquote, hback, hcontrol⟩) (ih h)

theorem skipText_escape {s s' : Bytes} (h : skipEscape s = .ok s') :
    skipText (backslash :: s) = skipText s' := by
  rw [skipText, if_neg (by decide), if_pos rfl]
  split
  · rename_i hskip
    rw [h] at hskip
    cases hskip
  · rename_i hskip
    rw [h] at hskip
    cases hskip
    rfl

/-- A string is skipped as the grammar says, up to its closing quote. -/
theorem skipText_ok_iff {s r : Bytes} : skipText s = .ok r ↔ Skipped s r := by
  refine ⟨skipped_of_skipText, fun h => ?_⟩
  induction h with
  | close r => rw [skipText, if_pos rfl]
  | plain hplain _ ih =>
      obtain ⟨hquote, hback, hcontrol⟩ := isPlain_iff.mp hplain
      rw [skipText, if_neg hquote, if_neg hback, if_neg hcontrol, ih]
  | letter hletter _ ih =>
      rw [skipText_escape (skipEscape_ok_iff.mpr (.inl ⟨_, _, rfl, hletter⟩)), ih]
  | code hunit _ ih =>
      obtain ⟨u, rfl⟩ := hunit.exists_eq
      rw [skipText_escape (skipEscape_ok_iff.mpr (.inr ⟨_, hunit⟩)), ih]

end Lineage.Json.Grammar

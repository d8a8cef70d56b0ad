import Lineage.Proofs.Json.Locality
import Lineage.Proofs.Json.Utf8

/-!
# Strings that are skipped

The strings in a value of any shape, keys among them, are only skipped.  `Holds t σ s` says that
one of them has the inside `t`.  Apart from them such a value is ASCII, so it is UTF-8 if all their
insides are (`Derives.utf8To`), and each of them can be found in the text between its quotes
(`Holds.exists_isSuffix`).
-/

namespace Lineage.Json.Grammar

/-- In the text that a symbol stands for, a string with the inside `t` is skipped. -/
inductive Holds (t : Bytes) : Symbol → Bytes → Prop
  /-- The value is the string. -/
  | text {r : Bytes} : Skipped (t ++ quote :: r) r → Holds t .value (quote :: (t ++ quote :: r))
  /-- It is in a container. -/
  | inside (c : Container) {s : Bytes} : Holds t (.items c) s → Holds t .value (c.opening :: s)
  /-- It is in an element of an array. -/
  | element {s s₁ : Bytes} : Blanks s s₁ → Holds t .value s₁ → Holds t (.item .list) s
  /-- It is the key of a member. -/
  | key {s r : Bytes} : Blanks s (quote :: (t ++ quote :: r)) → Skipped (t ++ quote :: r) r →
    Holds t (.item .object) s
  /-- It is in the value of a member. -/
  | member {s s₁ s₂ : Bytes} : SkippedKey s s₁ → Blanks s₁ s₂ →
    Holds t .value s₂ → Holds t (.item .object) s
  /-- It is in the first item. -/
  | first {c : Container} {s : Bytes} : Holds t (.item c) s → Holds t (.items c) s
  /-- It is in another item. -/
  | later {c : Container} {s s₁ s₂ : Bytes} : Derives (.item c) s s₁ →
    Blanks s₁ (comma :: s₂) →
    Holds t (.items c) s₂ → Holds t (.items c) s

theorem Skipped.exists_inside {s r : Bytes} (h : Skipped s r) : ∃ t, s = t ++ quote :: r := by
  induction h with
  | close r => exact ⟨[], rfl⟩
  | @plain b _ _ _ _ ih =>
      obtain ⟨t, rfl⟩ := ih
      exact ⟨b :: t, rfl⟩
  | @letter b _ _ _ _ _ ih =>
      obtain ⟨t, rfl⟩ := ih
      exact ⟨backslash :: b :: t, rfl⟩
  | code hunit _ ih =>
      obtain ⟨t, rfl⟩ := ih
      obtain ⟨u, rfl, -⟩ := local_codeUnit _ hunit
      exact ⟨u ++ t, (List.append_assoc u t _).symm⟩

/-! ## What is UTF-8 -/

theorem lt_opening (c : Container) : c.opening < 0x80 := by cases c <;> decide

theorem lt_closing (c : Container) : c.closing < 0x80 := by cases c <;> decide

/-- A string is UTF-8 if its inside is. -/
theorem utf8To_quoted {t r : Bytes} (h : IsUtf8 t) : Utf8To (quote :: (t ++ quote :: r)) r := by
  have hinside : Utf8To (t ++ quote :: r) (quote :: r) := ⟨t, rfl, h⟩
  exact (hinside.byte (by decide)).cons (by decide)

/-- What a symbol stands for is UTF-8 if the insides of its strings are. -/
theorem Derives.utf8To {σ : Symbol} {s r : Bytes} (h : Derives σ s r)
    (hheld : ∀ t, Holds t σ s → IsUtf8 t) :
    Utf8To s r := by
  induction h with
  | word r hw => exact utf8To_word hw r
  | number hnumeral => exact utf8To_numeral hnumeral
  | text hskipped =>
      obtain ⟨t, rfl⟩ := hskipped.exists_inside
      exact utf8To_quoted (hheld t (.text hskipped))
  | empty c hclose => exact ((utf8To_blanks hclose).byte (lt_closing c)).cons (lt_opening c)
  | filled c _ ih =>
      exact ((ih fun t ht => hheld t (.inside c ht)).byte (lt_closing c)).cons (lt_opening c)
  | element hblanks _ ih =>
      exact (utf8To_blanks hblanks).trans (ih fun t ht => hheld t (.element hblanks ht))
  | member hkey hblanks _ ih =>
      have hvalue :=
        (utf8To_blanks hblanks).trans (ih fun t ht => hheld t (.member hkey hblanks ht))
      cases hkey with
      | mk hquote hskipped hcolon =>
          obtain ⟨t, rfl⟩ := hskipped.exists_inside
          have hstring :=
            (utf8To_blanks hquote).trans (utf8To_quoted (hheld t (.key hquote hskipped)))
          exact (hstring.trans ((utf8To_blanks hcolon).byte (by decide))).trans hvalue
  | last _ hblanks ih => exact (ih fun t ht => hheld t (.first ht)).trans (utf8To_blanks hblanks)
  | more hitem hcomma _ ih ih' =>
      have hfirst :=
        (ih fun t ht => hheld t (.first ht)).trans ((utf8To_blanks hcomma).byte (by decide))
      exact hfirst.trans (ih' fun t ht => hheld t (.later hitem hcomma ht))

/-! ## Where the strings are -/

/-- A string that is held stands in the text between its quotes. -/
theorem Holds.exists_isSuffix {t : Bytes} {σ : Symbol} {s : Bytes} (h : Holds t σ s) :
    ∃ r, quote :: (t ++ quote :: r) <:+ s := by
  induction h with
  | @text r _ => exact ⟨r, List.suffix_rfl⟩
  | inside c _ ih => exact ih.imp fun r hr => hr.trans (List.suffix_cons _ _)
  | element hblanks _ ih => exact ih.imp fun r hr => hr.trans (local_blanks hblanks).isSuffix
  | @key s r hblanks _ => exact ⟨r, (local_blanks hblanks).isSuffix⟩
  | member hkey hblanks _ ih =>
      have hvalue := (local_blanks hblanks).isSuffix.trans (local_skippedKey hkey).isSuffix
      exact ih.imp fun r hr => hr.trans hvalue
  | first _ ih => exact ih
  | later hitem hcomma _ ih =>
      have hrest := (local_blanks hcomma).byte.isSuffix.trans (local_derives _ hitem).isSuffix
      exact ih.imp fun r hr => hr.trans hrest

end Lineage.Json.Grammar

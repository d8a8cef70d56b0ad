import Mathlib.Logic.Relation
import Lineage.Proofs.Json.Grammar

/-!
# The grammar looks at nothing behind its texts

A relation of the grammar that takes a text from the front of another one takes it in front of any
other text too (`Local`).  So what it takes ends by itself, and more text behind it changes nothing
(`Local.append`).
-/

namespace Lineage.Json.Grammar

/-- What is in front of `r` in `s` is taken by `R` in front of any text. -/
def Takes (R : Bytes → Bytes → Prop) (s r : Bytes) : Prop :=
  ∃ t, s = t ++ r ∧ ∀ x, R (t ++ x) x

/-- Whatever a relation takes, it takes in front of any text. -/
def Local (R : Bytes → Bytes → Prop) : Prop := ∀ ⦃s r : Bytes⦄, R s r → Takes R s r

section

variable {R R' Q : Bytes → Bytes → Prop} {s s₁ r t : Bytes}

theorem Takes.imp (h : Takes R s r) (hQ : ∀ {u x : Bytes}, R u x → Q u x) : Takes Q s r := by
  obtain ⟨t, rfl, ht⟩ := h
  exact ⟨t, rfl, fun x => hQ (ht x)⟩

theorem Takes.isSuffix (h : Takes R s r) : r <:+ s := by
  obtain ⟨t, rfl, -⟩ := h
  exact List.suffix_append t r

theorem Local.append (hlocal : Local R) (h : R s r) (x : Bytes) : R (s ++ x) (r ++ x) := by
  obtain ⟨t, rfl, ht⟩ := hlocal h
  rw [List.append_assoc]
  exact ht (r ++ x)

/-- One byte is taken by a relation that asks for it alone. -/
theorem Takes.cons {b : UInt8} (h : Takes R s r) (hQ : ∀ {u x : Bytes}, R u x → Q (b :: u) x) :
    Takes Q (b :: s) r := by
  obtain ⟨t, rfl, ht⟩ := h
  exact ⟨b :: t, rfl, fun x => hQ (ht x)⟩

/-- What two relations take one after the other, their composition takes. -/
theorem Takes.comp (h : Takes R s s₁) (h' : Takes R' s₁ r) :
    Takes (Relation.Comp R R') s r := by
  obtain ⟨t, rfl, ht⟩ := h
  obtain ⟨t', rfl, ht'⟩ := h'
  refine ⟨t ++ t', (List.append_assoc t t' r).symm, fun x => ⟨t' ++ x, ?_, ht' x⟩⟩
  rw [List.append_assoc]
  exact ht (t' ++ x)

/-- A relation that takes a text and a byte behind it. -/
theorem Takes.byte {b : UInt8} (h : Takes R s (b :: r)) : Takes (fun u x => R u (b :: x)) s r := by
  obtain ⟨t, rfl, ht⟩ := h
  refine ⟨t ++ [b], by simp, fun x => ?_⟩
  rw [List.append_assoc]
  exact ht (b :: x)

end

theorem local_blanks : Local Blanks := by
  intro s r h
  induction h with
  | done s => exact ⟨[], rfl, .done⟩
  | more hb _ ih => exact ih.cons (.more hb)

/-- The front of blanks is blank. -/
theorem Blanks.of_isPrefix {s p : Bytes} (h : Blanks s []) (hp : p <+: s) : Blanks p [] := by
  generalize hnil : ([] : Bytes) = r at h
  induction h generalizing p with
  | done s =>
      subst hnil
      rw [List.prefix_nil.mp hp]
      exact .done []
  | more hb _ ih =>
      rcases List.prefix_cons_iff.mp hp with rfl | ⟨t, rfl, ht⟩
      · exact hnil ▸ .done []
      · exact .more hb (ih ht hnil)

/-! ## Strings -/

theorem local_codeUnit (n : Nat) : Local (CodeUnit · n ·) := by
  intro s r h
  cases h with
  | @mk a b c d _ _ _ _ r ha hb hc hd =>
      exact ⟨[backslash, hexLetter, a, b, c, d], rfl, fun x => .mk x ha hb hc hd⟩

theorem local_escape (c : Char) : Local (Escape · c ·) := by
  intro s r h
  cases h with
  | @letter b _ r hletter => exact ⟨[backslash, b], rfl, fun x => .letter x hletter⟩
  | code hunit => exact (local_codeUnit _ hunit).imp .code
  | pair hunit hunit' h₁ h₂ h₃ h₄ hc =>
      exact ((local_codeUnit _ hunit).comp (local_codeUnit _ hunit')).imp
        fun ⟨_, hu, hu'⟩ => .pair hu hu' h₁ h₂ h₃ h₄ hc

theorem local_textBytes (t : Bytes) : Local (TextBytes · t ·) := by
  intro s r h
  induction h with
  | close r => exact ⟨[quote], rfl, .close⟩
  | plain hplain _ ih => exact ih.cons (.plain hplain)
  | escape hescape _ ih =>
      exact ((local_escape _ hescape).comp ih).imp fun ⟨_, hu, ht⟩ => .escape hu ht

theorem local_text (t : String) : Local (Text · t ·) := by
  rintro s r ⟨htext⟩
  exact (local_textBytes _ htext).cons .mk

theorem local_skipped : Local Skipped := by
  intro s r h
  induction h with
  | close r => exact ⟨[quote], rfl, .close⟩
  | plain hplain _ ih => exact ih.cons (.plain hplain)
  | @letter b c s r hletter _ ih =>
      obtain ⟨t, rfl, ht⟩ := ih
      exact ⟨backslash :: b :: t, rfl, fun x => .letter hletter (ht x)⟩
  | code hunit _ ih =>
      exact ((local_codeUnit _ hunit).comp ih).imp fun ⟨_, hu, hs⟩ => .code hu hs

/-! ## Numbers -/

theorem local_digits (n m : Nat) : Local (Digits n · m ·) := by
  intro s r h
  induction h with
  | done n s => exact ⟨[], rfl, .done n⟩
  | more hb _ ih => exact ih.cons (.more hb)

theorem local_whole (n : Nat) : Local (Whole · n ·) := by
  intro s r h
  cases h with
  | zero r => exact ⟨[0x30], rfl, .zero⟩
  | digits hb hzero hdigits => exact (local_digits _ _ hdigits).cons (.digits hb hzero)

theorem local_someDigits : Local SomeDigits := by
  rintro s r ⟨hb, hdigits⟩
  exact (local_digits _ _ hdigits).cons (.mk hb)

theorem local_sign : Local Sign := by
  intro s r h
  cases h with
  | absent => exact ⟨[], rfl, .absent⟩
  | present => exact ⟨[minus], rfl, .present⟩

theorem local_fraction : Local Fraction := by
  intro s r h
  cases h with
  | absent => exact ⟨[], rfl, .absent⟩
  | digits hdigits => exact (local_someDigits hdigits).cons .digits

theorem local_exponent : Local Exponent := by
  intro s r h
  cases h with
  | absent => exact ⟨[], rfl, .absent⟩
  | digits hmark hdigits => exact (local_someDigits hdigits).cons (.digits hmark)
  | @signed e sign s r hmark hsign hdigits =>
      obtain ⟨t, rfl, ht⟩ := local_someDigits hdigits
      exact ⟨e :: sign :: t, rfl, fun x => .signed hmark hsign (ht x)⟩

theorem local_numeral : Local Numeral := by
  rintro s r ⟨hsign, hwhole, hfraction, hexponent⟩
  have hparts := (local_sign hsign).comp
    ((local_whole _ hwhole).comp ((local_fraction hfraction).comp (local_exponent hexponent)))
  exact hparts.imp fun ⟨_, h₁, _, h₂, _, h₃, h₄⟩ => .mk h₁ h₂ h₃ h₄

theorem local_integer (n : Int) : Local (Integer · n ·) := by
  intro s r h
  cases h with
  | natural hwhole => exact (local_whole _ hwhole).imp .natural
  | negative hwhole hne => exact (local_whole _ hwhole).cons (.negative · hne)

/-! ## Values of any shape -/

theorem local_skippedKey : Local SkippedKey := by
  rintro s r ⟨hquote, htext, hcolon⟩
  have hparts := (local_blanks hquote).byte.comp
    ((local_skipped htext).comp (local_blanks hcolon).byte)
  exact hparts.imp fun ⟨_, h₁, _, h₂, h₃⟩ => .mk h₁ h₂ h₃

theorem local_derives (σ : Symbol) : Local (Derives σ) := by
  intro s r h
  induction h with
  | @word w r hw => exact ⟨ascii w, rfl, fun x => .word x hw⟩
  | number hnumeral => exact (local_numeral hnumeral).imp .number
  | text hskipped => exact (local_skipped hskipped).cons .text
  | empty c hblanks => exact (local_blanks hblanks).byte.cons (.empty c)
  | filled c _ ih => exact ih.byte.cons (.filled c)
  | element hblanks _ ih =>
      exact ((local_blanks hblanks).comp ih).imp fun ⟨_, h₁, h₂⟩ => .element h₁ h₂
  | member hkey hblanks _ ih =>
      exact ((local_skippedKey hkey).comp ((local_blanks hblanks).comp ih)).imp
        fun ⟨_, h₁, _, h₂, h₃⟩ => .member h₁ h₂ h₃
  | last _ hblanks ih =>
      exact (ih.comp (local_blanks hblanks)).imp fun ⟨_, h₁, h₂⟩ => .last h₁ h₂
  | more _ hcomma _ ih ih' =>
      exact (ih.comp ((local_blanks hcomma).byte.comp ih')).imp
        fun ⟨_, h₁, _, h₂, h₃⟩ => .more h₁ h₂ h₃

end Lineage.Json.Grammar

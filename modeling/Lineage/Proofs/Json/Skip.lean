import Lineage.Proofs.Json.Number
import Lineage.Proofs.Json.Text

/-!
# Values as they are skipped

`skipValue` accepts the values of the grammar and nothing else (`value_of_skipValue`,
`skipValue_of_value`).  A derivation says how a value is nested, and the loop of the reader only
knows which containers are open.  `Closes` says what is still to come until all of them are closed,
and `Owes` what a phase of the loop asks for before that.  Every round of the loop that comes to its
end pays a part of it.
-/

namespace Lineage.Json.Grammar

/-! ## Single steps -/

@[simp] theorem ofOpening?_opening (c : Container) : Container.ofOpening? c.opening = some c := by
  cases c <;> rfl

theorem opening_of_ofOpening? {b : UInt8} {c : Container} (h : Container.ofOpening? b = some c) :
    b = c.opening := by
  unfold Container.ofOpening? at h
  split at h
  · rename_i hb
    cases h
    exact hb
  · split at h
    · rename_i hb
      cases h
      exact hb
    · cases h

theorem isBlank_opening (c : Container) : isBlank c.opening = false := by
  cases c <;> rfl

theorem isBlank_closing (c : Container) : isBlank c.closing = false := by
  cases c <;> rfl

theorem skipFrom_scalar {s r r' : Bytes} {b : UInt8} (hs : skipBlanks s = b :: r)
    (hopen : Container.ofOpening? b = none) (hscalar : skipScalar b r = .ok r')
    (cs : List Container) :
    skipFrom cs .value s = skipFrom cs .separator r' := by
  rw [skipFrom, hs]
  dsimp only
  rw [hopen]
  dsimp only
  rw [hscalar]

theorem skipFrom_empty {s r r' : Bytes} {c : Container} (hs : skipBlanks s = c.opening :: r)
    (hr : skipBlanks r = c.closing :: r') (cs : List Container) :
    skipFrom cs .value s = skipFrom cs .separator r' := by
  rw [skipFrom, hs]
  dsimp only
  rw [ofOpening?_opening]
  dsimp only
  rw [hr]
  dsimp only
  rw [if_pos rfl]

theorem skipFrom_filled {s r r' : Bytes} {b : UInt8} {c : Container}
    (hs : skipBlanks s = c.opening :: r) (hr : skipBlanks r = b :: r') (hb : b ≠ c.closing)
    (cs : List Container) :
    skipFrom cs .value s = skipFrom (c :: cs) c.inside (b :: r') := by
  rw [skipFrom, hs]
  dsimp only
  rw [ofOpening?_opening]
  dsimp only
  rw [hr]
  dsimp only
  rw [if_neg hb]

theorem skipFrom_member {s r : Bytes} (h : skipKey s = .ok r) (cs : List Container) :
    skipFrom cs .member s = skipFrom cs .value r := by
  rw [skipFrom.eq_2, h]

theorem skipFrom_comma {s r : Bytes} (hs : skipBlanks s = comma :: r) (c : Container)
    (cs : List Container) :
    skipFrom (c :: cs) .separator s = skipFrom (c :: cs) c.inside r := by
  rw [skipFrom, hs]
  dsimp only
  rw [if_pos rfl]

theorem skipFrom_close {s r : Bytes} {c : Container} (hs : skipBlanks s = c.closing :: r)
    (cs : List Container) : skipFrom (c :: cs) .separator s = skipFrom cs .separator r := by
  have hne : c.closing ≠ comma := by
    cases c <;> decide
  rw [skipFrom, hs]
  dsimp only
  rw [if_neg hne, if_pos rfl]

/-- Blanks in front of a value or a key do not matter. -/
theorem skipFrom_blanks {s s' : Bytes} (h : Blanks s s') (c : Container) (cs : List Container) :
    skipFrom cs c.inside s = skipFrom cs c.inside s' := by
  cases c with
  | list => rw [Container.inside, skipFrom.eq_1, skipFrom.eq_1, h.skipBlanks_eq]
  | object =>
      have hkey : skipKey s = skipKey s' := by
        simp only [skipKey, h.skipBlanks_eq]
      rw [Container.inside, skipFrom.eq_2, skipFrom.eq_2, hkey]

/-! ## Keys and scalars -/

theorem skipKey_ok_iff {s r : Bytes} : skipKey s = .ok r ↔ SkippedKey s r := by
  constructor
  · intro h
    unfold skipKey at h
    split at h
    · cases h
    · rename_i hs
      split at h
      · rename_i hquote
        rw [hquote] at hs
        split at h
        · cases h
        · rename_i r₁ htext
          split at h
          · cases h
          · rename_i hr
            split at h
            · rename_i hcolon
              cases h
              rw [hcolon] at hr
              exact .mk (blanks_of_skipBlanks hs) (skipText_ok_iff.mp htext)
                (blanks_of_skipBlanks hr)
            · cases h
      · cases h
  · rintro ⟨hquote, htext, hcolon⟩
    simp only [skipKey, hquote.skipBlanks_cons rfl, if_true, skipText_ok_iff.mpr htext,
      hcolon.skipBlanks_cons rfl]

theorem readWord_ok_iff {w s r : Bytes} : readWord w s = .ok r ↔ s = w ++ r := by
  fun_induction readWord w s with
  | case1 s =>
      rw [List.nil_append, Except.ok.injEq]
  | case2 => exact ⟨fun h => (by cases h), fun h => (by cases h)⟩
  | case3 w ws r' ih => rw [ih, List.cons_append, List.cons.injEq, and_iff_right rfl]
  | case4 w ws b r' hne =>
      refine ⟨fun h => (by cases h), fun h => ?_⟩
      rw [List.cons_append, List.cons.injEq] at h
      exact absurd h.1 hne

/-- A word, a number or a string that is skipped is a value. -/
theorem value_of_skipScalar {b : UInt8} {s r : Bytes} (h : skipScalar b s = .ok r) :
    Derives .value (b :: s) r := by
  unfold skipScalar at h
  split at h
  · rename_i hb
    rw [hb, readWord_ok_iff.mp h]
    exact .word (w := "null") r (by decide)
  · split at h
    · rename_i hb
      rw [hb, readWord_ok_iff.mp h]
      exact .word (w := "true") r (by decide)
    · split at h
      · rename_i hb
        rw [hb, readWord_ok_iff.mp h]
        exact .word (w := "false") r (by decide)
      · split at h
        · rename_i hb
          rw [hb]
          exact .text (skipText_ok_iff.mp h)
        · split at h
          · split at h
            · cases h
            · rename_i hread
              cases h
              exact .number (numeral_of_readNumeral hread)
          · cases h

theorem skipScalar_word {w : String} (h : w ∈ ["null", "true", "false"]) (r : Bytes) :
    ∃ b u, ascii w = b :: u ∧ isBlank b = false ∧ Container.ofOpening? b = none ∧
      skipScalar b (u ++ r) = .ok r := by
  have hword : ∀ u : Bytes, readWord u (u ++ r) = .ok r := fun u => readWord_ok_iff.mpr rfl
  simp only [List.mem_cons, List.not_mem_nil, or_false] at h
  rcases h with rfl | rfl | rfl
  · exact ⟨_, _, rfl, rfl, rfl, hword (ascii "ull")⟩
  · exact ⟨_, _, rfl, rfl, rfl, hword (ascii "rue")⟩
  · exact ⟨_, _, rfl, rfl, rfl, hword (ascii "alse")⟩

/-- A number begins with a minus sign or a digit. -/
theorem Numeral.exists_eq {s r : Bytes} (h : Numeral s r) :
    ∃ b u, s = b :: u ∧ (b = minus ∨ isDigit b = true) := by
  cases h with
  | mk hsign hwhole =>
      cases hsign with
      | absent =>
          obtain ⟨b, u, hs, hb⟩ := hwhole.exists_eq
          exact ⟨b, u, hs, .inr hb⟩
      | present => exact ⟨_, _, rfl, .inl rfl⟩

/-- The bytes that a number begins with are none of those with another meaning. -/
theorem ne_of_minus_or_digit {b : UInt8} (h : b = minus ∨ isDigit b = true) :
    isBlank b = false ∧ Container.ofOpening? b = none ∧ b ≠ 0x6e ∧ b ≠ 0x74 ∧
      b ≠ 0x66 ∧ b ≠ quote ∧
      b ≠ closeBracket ∧ b ≠ closeBrace := by
  rcases h with rfl | h
  · decide
  · refine ⟨isBlank_of_isDigit h, ?_, ?_, ?_, ?_, ?_, ?_, ?_⟩
    · cases hopen : Container.ofOpening? b with
      | none => rfl
      | some c =>
          rw [opening_of_ofOpening? hopen] at h
          cases c <;> cases h
    all_goals
      rintro rfl
      cases h

theorem skipScalar_number {b : UInt8} {u r : Bytes} (h : Numeral (b :: u) r) (hr : EndsNumber r)
    (hb : b = minus ∨ isDigit b = true) : skipScalar b u = .ok r := by
  obtain ⟨n, hread⟩ := h.exists_readNumeral hr .invalidNumber
  obtain ⟨_, _, hn, ht, hf, hq, _⟩ := ne_of_minus_or_digit hb
  simp only [skipScalar, if_neg hn, if_neg ht, if_neg hf, if_neg hq, if_pos hb, hread]

/-! ## What is derived is skipped -/

/-- A value begins with a byte that neither is a blank nor closes a container. -/
theorem Derives.exists_eq {s r : Bytes} (h : Derives .value s r) :
    ∃ b u, s = b :: u ∧ isBlank b = false ∧ ∀ c : Container, b ≠ c.closing := by
  cases h with
  | word r hw =>
      simp only [List.mem_cons, List.not_mem_nil, or_false] at hw
      rcases hw with rfl | rfl | rfl
      all_goals exact ⟨_, _, rfl, rfl, fun c => (by cases c <;> decide)⟩
  | number hnumeral =>
      obtain ⟨b, u, hs, hb⟩ := hnumeral.exists_eq
      obtain ⟨hblank, _, _, _, _, _, hbracket, hbrace⟩ := ne_of_minus_or_digit hb
      refine ⟨b, u, hs, hblank, fun c => ?_⟩
      cases c
      · exact hbracket
      · exact hbrace
  | text => exact ⟨_, _, rfl, rfl, fun c => (by cases c <;> decide)⟩
  | empty c =>
      exact ⟨_, _, rfl, isBlank_opening c, fun c' => (by cases c <;> cases c' <;> decide)⟩
  | filled c =>
      exact ⟨_, _, rfl, isBlank_opening c, fun c' => (by cases c <;> cases c' <;> decide)⟩

/-- Items begin, behind blanks, with a byte that does not close their container. -/
theorem Derives.exists_skipBlanks_eq {c : Container} {s r : Bytes} (h : Derives (.items c) s r) :
    ∃ b u, skipBlanks s = b :: u ∧ b ≠ c.closing := by
  have hitem : ∀ {s r : Bytes}, Derives (.item c) s r → ∃ b u, skipBlanks s = b :: u ∧
      b ≠ c.closing := by
    intro s r hitem
    cases hitem with
    | element hblanks hvalue =>
        obtain ⟨b, u, rfl, hblank, hclosing⟩ := hvalue.exists_eq
        exact ⟨b, u, hblanks.skipBlanks_cons hblank, hclosing _⟩
    | member hkey =>
        cases hkey with
        | mk hblanks => exact ⟨_, _, hblanks.skipBlanks_cons rfl, by decide⟩
  cases h with
  | last h => exact hitem h
  | more h => exact hitem h

theorem endsNumber_of_blanks {s r : Bytes} (h : Blanks s r) (hr : EndsNumber r) : EndsNumber s := by
  cases h with
  | done => exact hr
  | more hb =>
      intro b' hb'
      cases hb'
      simp only [isBlank, Bool.or_eq_true, beq_iff_eq] at hb
      rcases hb with ((rfl | rfl) | rfl) | rfl <;> decide

theorem endsNumber_comma (r : Bytes) : EndsNumber (comma :: r) := by
  intro b hb
  cases hb
  decide

theorem endsNumber_closing (c : Container) (r : Bytes) : EndsNumber (c.closing :: r) := by
  intro b hb
  cases hb
  cases c <;> decide

/-- What the reader does with the text of a symbol, whatever containers are open. -/
def Skips : Symbol → Bytes → Bytes → Prop
  | .value, s, r => EndsNumber r → ∀ cs, skipFrom cs .value s = skipFrom cs .separator r
  | .item c, s, r => EndsNumber r → ∀ cs, skipFrom cs c.inside s = skipFrom cs .separator r
  | .items c, s, r => ∀ r', r = c.closing :: r' →
    ∀ cs, skipFrom (c :: cs) c.inside s = skipFrom cs .separator r'

theorem Derives.skips {σ : Symbol} {s r : Bytes} (h : Derives σ s r) : Skips σ s r := by
  induction h with
  | word r hw =>
      intro _ cs
      obtain ⟨b, u, heq, hblank, hopen, hscalar⟩ := skipScalar_word hw r
      rw [heq, List.cons_append]
      exact skipFrom_scalar (skipBlanks_cons hblank _) hopen hscalar cs
  | number hnumeral =>
      intro hr cs
      obtain ⟨b, u, rfl, hb⟩ := hnumeral.exists_eq
      obtain ⟨hblank, hopen, _⟩ := ne_of_minus_or_digit hb
      exact skipFrom_scalar (skipBlanks_cons hblank u) hopen (skipScalar_number hnumeral hr hb) cs
  | @text s r hskipped =>
      intro _ cs
      have hscalar : skipScalar quote s = .ok r := skipText_ok_iff.mpr hskipped
      exact skipFrom_scalar (skipBlanks_cons rfl s) rfl hscalar cs
  | empty c hblanks =>
      intro _ cs
      exact skipFrom_empty (skipBlanks_cons (isBlank_opening c) _)
        (hblanks.skipBlanks_cons (isBlank_closing c)) cs
  | @filled c s r hitems ih =>
      intro _ cs
      obtain ⟨b, u, hskip, hb⟩ := hitems.exists_skipBlanks_eq
      rw [skipFrom_filled (skipBlanks_cons (isBlank_opening c) _) hskip hb,
        ← skipFrom_blanks (blanks_of_skipBlanks hskip)]
      exact ih r rfl cs
  | element hblanks _ ih =>
      intro hr cs
      rw [skipFrom_blanks hblanks]
      exact ih hr cs
  | @member s s₁ s₂ r hkey hblanks _ ih =>
      intro hr cs
      have hinside := skipFrom_blanks hblanks .list cs
      rw [Container.inside, skipFrom_member (skipKey_ok_iff.mpr hkey)]
      exact hinside.trans (ih hr cs)
  | @last c s s₁ r _ hblanks ih =>
      rintro r' rfl cs
      have hends := endsNumber_of_blanks hblanks (endsNumber_closing c r')
      rw [ih hends]
      exact skipFrom_close (hblanks.skipBlanks_cons (isBlank_closing c)) cs
  | @more c s s₁ s₂ r _ hblanks _ ih ih' =>
      rintro r' rfl cs
      have hends := endsNumber_of_blanks hblanks (endsNumber_comma s₂)
      rw [ih hends, skipFrom_comma (hblanks.skipBlanks_cons rfl)]
      exact ih' r' rfl cs

/-- A value of the grammar is skipped to its end. -/
theorem skipValue_of_value {s s' r : Bytes} (hblanks : Blanks s s') (h : Derives .value s' r)
    (hr : EndsNumber r) : skipValue s = .ok r := by
  have hinside := skipFrom_blanks hblanks .list []
  rw [skipValue]
  refine hinside.trans ?_
  rw [Container.inside, h.skips hr, skipFrom]

/-! ## What is skipped is derived -/

/-- What is to come until all open containers are closed. -/
inductive Closes : List Container → Bytes → Bytes → Prop
  /-- None is open. -/
  | done (s : Bytes) : Closes [] s s
  /-- The innermost one is closed. -/
  | close {c : Container} {cs : List Container} {s s₁ r : Bytes} :
    Blanks s (c.closing :: s₁) →
    Closes cs s₁ r → Closes (c :: cs) s r
  /-- The innermost one goes on with a comma and more items. -/
  | more {c : Container} {cs : List Container} {s s₁ s₂ r : Bytes} :
    Blanks s (comma :: s₁) →
    Derives (.items c) s₁ (c.closing :: s₂) → Closes cs s₂ r → Closes (c :: cs) s r

/-- What a phase asks for, and what is to come behind it. -/
def Owes (cs : List Container) : Phase → Bytes → Bytes → Prop
  | .value, s, r => ∃ s₁, Derives (.item .list) s s₁ ∧ Closes cs s₁ r
  | .member, s, r => ∃ s₁, Derives (.item .object) s s₁ ∧ Closes cs s₁ r
  | .separator, s, r => Closes cs s r

/-- An item and what is to come behind it are the items of the innermost container. -/
theorem Owes.items {c : Container} {cs : List Container} {s r : Bytes}
    (h : Owes (c :: cs) c.inside s r) :
    ∃ s₁, Derives (.items c) s (c.closing :: s₁) ∧ Closes cs s₁ r := by
  obtain ⟨s₁, hitem, hcloses⟩ : ∃ s₁, Derives (.item c) s s₁ ∧
      Closes (c :: cs) s₁ r := by
    cases c <;> exact h
  cases hcloses with
  | close hblanks hrest => exact ⟨_, .last hitem hblanks, hrest⟩
  | more hblanks hitems hrest => exact ⟨_, .more hitem hblanks hitems, hrest⟩

/-- Items may begin with more blanks. -/
theorem Derives.items_of_blanks {c : Container} {s s' r : Bytes} (h : Derives (.items c) s' r)
    (hblanks : Blanks s s') : Derives (.items c) s r := by
  have hitem : ∀ {r : Bytes}, Derives (.item c) s' r → Derives (.item c) s r := by
    intro r hitem
    cases hitem with
    | element hblanks' hvalue => exact .element (hblanks.trans hblanks') hvalue
    | member hkey hblanks' hvalue =>
        cases hkey with
        | mk hquote htext hcolon =>
            exact .member (.mk (hblanks.trans hquote) htext hcolon) hblanks' hvalue
  cases h with
  | last h hblanks' => exact .last (hitem h) hblanks'
  | more h hcomma hitems => exact .more (hitem h) hcomma hitems

theorem owes_of_skipFrom {cs : List Container} {p : Phase} {s r : Bytes}
    (h : skipFrom cs p s = .ok r) : Owes cs p s r := by
  fun_induction skipFrom cs p s with
  | case1 => cases h
  | case2 => cases h
  | case3 cs s b u hs _ r' hscalar ih =>
      exact ⟨r', .element (blanks_of_skipBlanks hs) (value_of_skipScalar hscalar), ih h⟩
  | case4 => cases h
  | case5 cs s b u hs c hopen r' hr ih =>
      rw [opening_of_ofOpening? hopen] at hs
      exact ⟨r', .element (blanks_of_skipBlanks hs) (.empty c (blanks_of_skipBlanks hr)), ih h⟩
  | case6 cs s b u hs c hopen b' r' hr hb ih =>
      rw [opening_of_ofOpening? hopen] at hs
      obtain ⟨s₁, hitems, hcloses⟩ := (ih h).items
      -- The reader has passed over the blanks to see that the container is not empty.
      have hfilled := hitems.items_of_blanks (blanks_of_skipBlanks hr)
      exact ⟨s₁, .element (blanks_of_skipBlanks hs) (.filled c hfilled), hcloses⟩
  | case7 => cases h
  | case8 cs s u hkey ih =>
      obtain ⟨s₁, hvalue, hcloses⟩ := ih h
      cases hvalue with
      | element hblanks hvalue =>
          exact ⟨s₁, .member (skipKey_ok_iff.mp hkey) hblanks hvalue, hcloses⟩
  | case9 =>
      cases h
      exact .done _
  | case10 => cases h
  | case11 s c cs u hs ih =>
      obtain ⟨s₁, hitems, hcloses⟩ := (ih h).items
      exact .more (blanks_of_skipBlanks hs) hitems hcloses
  | case12 s c cs u hs _ ih => exact .close (blanks_of_skipBlanks hs) (ih h)
  | case13 => cases h

/-- What is skipped is a value. -/
theorem value_of_skipValue {s r : Bytes} (h : skipValue s = .ok r) :
    ∃ s', Blanks s s' ∧ Derives .value s' r := by
  obtain ⟨s₁, hitem, hcloses⟩ := owes_of_skipFrom h
  cases hcloses
  cases hitem with
  | element hblanks hvalue => exact ⟨_, hblanks, hvalue⟩

end Lineage.Json.Grammar

import Lineage.Proofs.Audit.Surroundings
import Lineage.Proofs.Json.NumberLiteral

/-!
# Numbers in records

A numeric field takes the integers that fit its word, signed or unsigned (`FieldType.Takes`), and
has the word that such an integer wraps to (`FieldType.Wraps`).  No other number is taken, whether
it is an integer out of this range, a negative zero, or has a fraction or an exponent.  None is
rounded or cut off.
-/

namespace Lineage.Audit

open Lineage.Json
open Lineage.Json.Grammar

/-- The integers that a field of some type takes. -/
def FieldType.Takes : FieldType → Int → Prop
  | .text, _ => False
  | .word32, n => -0x80000000 ≤ n ∧ n ≤ 0xffffffff
  | .word64, n => -0x8000000000000000 ≤ n ∧ n ≤ 0xffffffffffffffff

instance (t : FieldType) (n : Int) : Decidable (t.Takes n) :=
  match t with
  | .text => .isFalse id
  | .word32 | .word64 => inferInstanceAs (Decidable (_ ∧ _))

/-- The value of a numeric field is the word that an integer wraps to. -/
def FieldType.Wraps : (t : FieldType) → Int → t.Value → Prop
  | .text, _, _ => False
  | .word32, n, v => (v.toNat : Int) = n % 0x100000000
  | .word64, n, v => (v.toNat : Int) = n % 0x10000000000000000

/-- A text of one record in which a number is the value of a field.  The members in front of it are
`before`, those behind it are `after`, and `i` is the integer that the number denotes, if it denotes
one. -/
inductive NumberRecord (f : Field) (before after : List Member) (i : Option Int) : Bytes → Prop
  | mk {s s₁ s₂ s₃ s₄ s₅ r : Bytes} : Blanks s (openBrace :: s₁) →
    FrontText s₁ before s₂ →
    KeyText f.key s₂ s₃ → Blanks s₃ s₄ → NumberLiteral s₄ i s₅ →
      BackText s₅ after r → Blanks r [] →
    NumberRecord f before after i s

/-! ## One number -/

/-- What a field takes, it has a value for. -/
theorem FieldType.Takes.exists_literal {t : FieldType} {n : Int} {s r : Bytes} (h : t.Takes n)
    (hinteger : Integer s n r) : ∃ v, t.Wraps n v ∧ Literal t s v r := by
  cases t with
  | text => cases h
  | word32 =>
      have hwrap := eq_wrap32_iff.mp (Eq.refl (wrap32 n))
      exact ⟨wrap32 n, hwrap, .word32 hinteger h.1 h.2 hwrap⟩
  | word64 =>
      have hwrap := eq_wrap64_iff.mp (Eq.refl (wrap64 n))
      exact ⟨wrap64 n, hwrap, .word64 hinteger h.1 h.2 hwrap⟩

/-- A field reads no number but the integers that it takes. -/
theorem FieldType.takes_of_read {t : FieldType} {v : t.Value} {s s₁ r r' : Bytes} {i : Option Int}
    (hread : t.read s = .ok (v, r')) (hblanks : Blanks s s₁) (hnumber : NumberLiteral s₁ i r)
    (hr : EndsNumber r) : ∃ n, i = some n ∧ t.Takes n := by
  obtain ⟨b, u, rfl, hb⟩ := hnumber.numeral.exists_eq
  obtain ⟨hblank, _, _, _, _, hquote, _⟩ := ne_of_minus_or_digit hb
  -- All readers find the number, since it is behind the same blanks for each of them.
  have hfound : ∀ {s₁' : Bytes} {n : Int}, Blanks s s₁' → Integer s₁' n r' →
      EndsNumber r' → i = some n := by
    intro s₁' n hblanks' hinteger hr'
    obtain ⟨b', u', rfl, hb'⟩ := hinteger.exists_eq
    have hsame := hblanks'.skipBlanks_cons (ne_of_minus_or_digit hb').1
    rw [hblanks.skipBlanks_cons hblank] at hsame
    rw [← hsame] at hinteger
    exact (hnumber.eq_of_integer hr hinteger hr').1
  cases t with
  | text =>
      obtain ⟨s₁', hblanks', htext⟩ := readString_ok_iff.mp hread
      cases htext with
      | mk =>
          have hsame := hblanks'.skipBlanks_cons rfl
          rw [hblanks.skipBlanks_cons hblank] at hsame
          exact absurd (List.cons.inj hsame).1 hquote
  | word32 =>
      simp only [FieldType.read] at hread
      split at hread
      · cases hread
      · rename_i n r'' hinteger
        cases hread
        obtain ⟨s₁', hblanks', hinteger, hr', hlow, hhigh⟩ := readWord32_ok_iff.mp hinteger
        exact ⟨n, hfound hblanks' hinteger hr', hlow, hhigh⟩
  | word64 =>
      simp only [FieldType.read] at hread
      split at hread
      · cases hread
      · rename_i n r'' hinteger
        cases hread
        obtain ⟨s₁', hblanks', hinteger, hr', hlow, hhigh⟩ := readWord64_ok_iff.mp hinteger
        exact ⟨n, hfound hblanks' hinteger hr', hlow, hhigh⟩

/-! ## Numbers in their places -/

variable {f : Field} {before after : List Member} {i : Option Int} {s : Bytes}

/-- A number that the field takes makes a record with the word that it wraps to. -/
theorem NumberRecord.exists_document (h : NumberRecord f before after i s) {n : Int}
    (hi : i = some n) (hn : f.type.Takes n) :
    ∃ v, f.type.Wraps n v ∧ DocumentText s [before ++ .known ⟨f, v⟩ :: after] := by
  subst hi
  obtain ⟨hopen, hfront, hkey, hblanks, hnumber, hback, hend⟩ := h
  cases hnumber with
  | integer hinteger =>
      obtain ⟨v, hv, hliteral⟩ := hn.exists_literal hinteger
      have hmember : MemberText _ (.known ⟨f, v⟩) _ :=
        KeyText.memberText hkey (.known hblanks hliteral)
      exact ⟨v, hv, .more hopen (.filled (hfront.membersText hmember hback)) (.done hend)⟩

/-- A record is complete if all required keys but one are elsewhere, and this one is the key of a
member. -/
theorem complete_of_others (v : f.type.Value)
    (h : ∀ g : Field, g.isRequired = true → g ≠ f →
      g.key ∈ (before ++ after).map Member.key) :
    Complete (before ++ .known ⟨f, v⟩ :: after) := by
  intro g hrequired
  rw [List.map_append, List.map_cons, List.mem_append, List.mem_cons]
  by_cases hg : g = f
  · exact .inr (.inl (congrArg Field.key hg))
  · have hmem := h g hrequired hg
    rw [List.map_append, List.mem_append] at hmem
    exact hmem.imp id .inr

/-- An integer that a field takes is accepted in a record with all other required keys, and if it is
the last value of the field, the field has the word that the integer wraps to.  Any other number
makes the record malformed. -/
theorem readDocument_number (h : NumberRecord f before after i s)
    (hcomplete : ∀ g : Field, g.isRequired = true → g ≠ f →
      g.key ∈ (before ++ after).map Member.key) :
    (∀ n, i = some n → f.type.Takes n → ∃ e, readDocument s = .ok [e] ∧
      (f.key ∉ after.map Member.key → f.type.Wraps n (e.get f))) ∧
    ((∀ n, i = some n → ¬ f.type.Takes n) →
      ∃ cause place, readDocument s = .error (.malformed cause place)) := by
  constructor
  · intro n hi hn
    obtain ⟨v, hv, hdocument⟩ := h.exists_document hi hn
    obtain ⟨e, he⟩ := (ofEntries?_isOk_iff _).mpr (complete_of_others v hcomplete)
    have houtcome := outcome_ofEntries? (before ++ .known ⟨f, v⟩ :: after)
    rw [he] at houtcome
    have hread : readEvents s = .ok [e] :=
      readEvents_eq_ok_iff.mpr ⟨_,
        hdocument, by rw [List.map_singleton, he, List.map_singleton]⟩
    refine ⟨e, readDocument_ok_iff.mpr hread, fun hlast => ?_⟩
    cases houtcome with
    | event _ hmeans =>
        rw [hmeans.last f v before after rfl hlast]
        exact hv
  · intro hnone
    obtain ⟨hopen, hfront, hkey, hblanks, hnumber, hback, -⟩ := h
    cases hread : f.type.read _ with
    | error fault => exact ⟨_, _, readDocument_of_fault hopen hfront hkey hread⟩
    | ok found =>
        obtain ⟨n, hi, hn⟩ := FieldType.takes_of_read hread hblanks hnumber hback.endsNumber
        exact absurd hn (hnone n hi)

/-- A call that returned minus one, and the same record with a negative zero in its place. -/
theorem readDocument_number_negative :
    let others : List Entry := [⟨.event, "audit:event:aue_exit:"⟩, ⟨.time, (1 : UInt64)⟩,
      ⟨.pid, (2 : UInt32)⟩, ⟨.ppid, (1 : UInt32)⟩, ⟨.tid, (2 : UInt32)⟩,
      ⟨.uid, (0 : UInt32)⟩, ⟨.subjProcUuid, "p"⟩, ⟨.subjThrUuid, "t"⟩]
    let rest := comma :: (utf8 (",".intercalate ((others.map Entry.print).map fun m =>
      printString m.1 ++ ":" ++ m.2)) ++ [closeBrace])
    let text (number : Bytes) : Bytes :=
      openBrace :: (utf8 (printString Field.retval.key) ++ colon :: (number ++ rest))
    (NumberRecord .retval [] (others.map .known) (some (-1)) (text (ascii "-1")) ∧
      ∃ e, readDocument (text (ascii "-1")) = .ok [e] ∧ e.retval = 0xffffffff) ∧
    NumberRecord .retval [] (others.map .known) none (text (ascii "-0")) ∧
      ∃ cause place, readDocument (text (ascii "-0")) = .error (.malformed cause place) := by
  intro others rest text
  have hcomplete : ∀ g ∈ Field.all, g.isRequired = true → g ≠ .retval →
      g.key ∈ ([] ++ others.map Member.known).map Member.key := by decide
  have hothers := fun g => hcomplete g g.mem_all
  have hrest : BackText rest (others.map .known) [] := .more (.done _) (membersText_print _ _ [])
  have hrecord : ∀ (number : Bytes) {i : Option Int}, NumberLiteral (number ++ rest) i rest →
      NumberRecord .retval [] (others.map .known) i (text number) :=
    fun number i hnumber => .mk (.done _) (.done _) (keyText_print _ _)
      (.done _) hnumber hrest (.done [])
  have hone := hrecord (ascii "-1")
    (.integer (.negative (.digits rfl (by decide) (.done _ rest)) (by decide)))
  have hzero := hrecord (ascii "-0") (.negativeZero rest)
  refine ⟨⟨hone, ?_⟩, hzero, (readDocument_number hzero hothers).2 fun n hn => by cases hn⟩
  obtain ⟨e, he, hwraps⟩ := (readDocument_number hone hothers).1 (-1) rfl (by decide)
  exact ⟨e, he, eq_wrap32_iff.mpr (hwraps (by decide))⟩

end Lineage.Audit

import Lineage.Proofs.Audit.Concatenation

/-!
# What stands around a member

A record is its members up to some place (`FrontText`), the key that stands there (`KeyText`), the
value behind it, and the members that follow (`BackText`).  In a record each of them can be
exchanged for another one of its kind (`FrontText.membersText`), and a value that its field refuses
makes the document refused, whatever stands behind it (`readDocument_of_fault`).
-/

namespace Lineage.Audit

open Lineage.Json
open Lineage.Json.Grammar

/-- A key with blanks around it, and the colon. -/
inductive KeyText (key : String) : Bytes → Bytes → Prop
  | mk {s s₁ s₂ r : Bytes} : Blanks s s₁ → Text s₁ key s₂ →
    Blanks s₂ (colon :: r) → KeyText key s r

/-- Members with a comma behind each of them. -/
inductive FrontText : Bytes → List Member → Bytes → Prop
  | done (s : Bytes) : FrontText s [] s
  | more {m : Member} {ms : List Member} {s s₁ s₂ r : Bytes} : MemberText s m s₁ →
    Blanks s₁ (comma :: s₂) → FrontText s₂ ms r → FrontText s (m :: ms) r

/-- What follows a member up to the closing brace. -/
inductive BackText : Bytes → List Member → Bytes → Prop
  | close {s r : Bytes} : Blanks s (closeBrace :: r) → BackText s [] r
  | more {ms : List Member} {s s₁ r : Bytes} : Blanks s (comma :: s₁) →
    MembersText s₁ ms r →
    BackText s ms r

section

variable {before after : List Member} {m : Member} {s s₁ s₂ r : Bytes}

theorem BackText.endsNumber (h : BackText s after r) : EndsNumber s := by
  cases h with
  | close hclose => exact endsNumber_of_blanks hclose (endsNumber_closing .object r)
  | more hcomma => exact endsNumber_of_blanks hcomma (endsNumber_comma _)

theorem KeyText.memberText (hkey : KeyText m.key s s₁) (hvalue : MemberValue s₁ m r) :
    MemberText s m r := by
  cases hkey with
  | mk hblanks htext hcolon => exact .mk hblanks htext hcolon hvalue

theorem keyText_print (key : String) (r : Bytes) :
    KeyText key (utf8 (printString key) ++ colon :: r) r :=
  .mk (.done _) (text_printString key _) (.done _)

/-- A member between those in front of it and those that follow. -/
theorem FrontText.membersText (hfront : FrontText s before s₁) (hmember : MemberText s₁ m s₂)
    (hback : BackText s₂ after r) : MembersText s (before ++ m :: after) r := by
  induction hfront with
  | done =>
      cases hback with
      | close hclose => exact .last hmember hclose
      | more hcomma hmembers => exact .more hmember hcomma hmembers
  | more hfirst hcomma _ ih => exact .more hfirst hcomma (ih hmember)

end

/-! ## Reading up to a member -/

/-- The members in front are read, and only add their entries. -/
theorem FrontText.foldMembers_eq {before : List Member} {s s' r : Bytes} (h : FrontText s before r)
    {first : Bool} (hlead : Lead first s' s) (done : List Entry) :
    ∃ done' first' r', Lead first' r' r ∧
      foldMembers entryStep done first s' = foldMembers entryStep done' first' r' := by
  induction h generalizing first s' done with
  | done => exact ⟨done, first, s', hlead, rfl⟩
  | more hmember hcomma _ ih =>
      have hends := endsNumber_of_blanks hcomma (endsNumber_comma _)
      rw [foldMembers_member hlead hmember hends]
      exact ih (.next hcomma) _

/-- A value that its field refuses ends the reading of a record. -/
theorem KeyText.foldMembers_fault {f : Field} {fault : Fault} {s s' r : Bytes}
    (h : KeyText f.key s r) (hread : f.type.read r = .error fault) {first : Bool}
    (hlead : Lead first s' s) (done : List Entry) :
    foldMembers entryStep done first s' = .error fault := by
  cases h with
  | @mk _ s₂ _ hblanks htext hcolon =>
      have hkey := readKey?_some.mpr ⟨_, _, hlead, hblanks, htext⟩
      have hentry : entryStep.run done f.key s₂ = .error fault := by
        simp only [entryStep, readEntry, readColon_ok_iff.mpr hcolon, Field.ofKey?_key, hread]
      rw [foldMembers, hkey]
      dsimp only
      rw [hentry]

/-- A value that its field refuses makes the document refused. -/
theorem readDocument_of_fault {f : Field} {fault : Fault} {before : List Member}
    {s s₁ s₂ s₃ : Bytes} (hopen : Blanks s (openBrace :: s₁))
    (hfront : FrontText s₁ before s₂) (hkey : KeyText f.key s₂ s₃)
    (hread : f.type.read s₃ = .error fault) :
    readDocument s = .error (.malformed fault.cause (fault.position s)) := by
  obtain ⟨done, first, s₂', hlead, hfold⟩ := hfront.foldMembers_eq (.first s₁) []
  have hrecord : readRecord (openBrace :: s₁) = .error fault := by
    rw [readRecord_of_brace (.done _), hfold, hkey.foldMembers_fault hread hlead]
    rfl
  exact readDocument_error_iff.mpr ⟨_, readEvents_of_fault hopen rfl hrecord, rfl⟩

end Lineage.Audit

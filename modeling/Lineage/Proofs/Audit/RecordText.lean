import Lineage.Audit.Journal
import Lineage.Proofs.Json.Skip

/-!
# The texts of records

`RecordText s ms r` says that the text `s` begins with a record whose members are `ms`, and that `r`
is behind it.  A member with the key of a known field has a literal of the field's type, which is
decoded.  Any other member may have a value of any shape, which is forgotten.  `DocumentText` puts
records behind each other.

`readRecord` accepts the texts of records and nothing else, and its entries are those of the members
(`readRecord_of_text`, `text_of_readRecord`).
-/

namespace Lineage.Audit

open Lineage.Json
open Lineage.Json.Grammar

/-! ## The grammar -/

/-- A member of a record. -/
inductive Member where
  /-- A known field with its value. -/
  | known (entry : Entry)
  /-- A key that no field has.  The value behind it does not matter. -/
  | other (key : String) (unknown : ∀ f : Field, f.key ≠ key)

/-- The key of a member, decoded. -/
def Member.key : Member → String
  | .known entry => entry.field.key
  | .other key _ => key

/-- The entry of a member with a known key. -/
def Member.entry? : Member → Option Entry
  | .known entry => some entry
  | .other _ _ => none

/-- The entries of some members, in order. -/
def entries (ms : List Member) : List Entry := ms.filterMap Member.entry?

@[simp] theorem entries_known (entry : Entry) (ms : List Member) :
    entries (.known entry :: ms) = entry :: entries ms := rfl

@[simp] theorem entries_other (key : String) (unknown : ∀ f : Field, f.key ≠ key)
    (ms : List Member) :
    entries (.other key unknown :: ms) = entries ms := rfl

/-- The literals of a type, each with its value.  A negative integer stands for the word that it is
congruent to. -/
inductive Literal : (t : FieldType) → Bytes → t.Value → Bytes → Prop
  | text {s r : Bytes} {v : String} : Text s v r → Literal .text s v r
  | word32 {s r : Bytes} {n : Int} {v : UInt32} : Integer s n r → -0x80000000 ≤ n →
    n ≤ 0xffffffff →
    (v.toNat : Int) = n % 0x100000000 → Literal .word32 s v r
  | word64 {s r : Bytes} {n : Int} {v : UInt64} : Integer s n r → -0x8000000000000000 ≤ n →
    n ≤ 0xffffffffffffffff → (v.toNat : Int) = n % 0x10000000000000000 → Literal .word64 s v r

/-- What stands behind the colon of a member. -/
inductive MemberValue : Bytes → Member → Bytes → Prop
  /-- The literal of a known field. -/
  | known {entry : Entry} {s s₁ r : Bytes} : Blanks s s₁ →
    Literal entry.field.type s₁ entry.value r → MemberValue s (.known entry) r
  /-- Any value behind another key. -/
  | other {key : String} {unknown : ∀ f : Field, f.key ≠ key} {s s₁ r : Bytes} :
    Blanks s s₁ →
    Derives .value s₁ r → MemberValue s (.other key unknown) r

/-- A member, with blanks around its key. -/
inductive MemberText : Bytes → Member → Bytes → Prop
  | mk {m : Member} {s s₁ s₂ s₃ r : Bytes} : Blanks s s₁ → Text s₁ m.key s₂ →
    Blanks s₂ (colon :: s₃) →
    MemberValue s₃ m r → MemberText s m r

/-- At least one member, commas between them, and the closing brace. -/
inductive MembersText : Bytes → List Member → Bytes → Prop
  | last {m : Member} {s s₁ r : Bytes} : MemberText s m s₁ → Blanks s₁ (closeBrace :: r) →
    MembersText s [m] r
  | more {m : Member} {ms : List Member} {s s₁ s₂ r : Bytes} : MemberText s m s₁ →
    Blanks s₁ (comma :: s₂) → MembersText s₂ ms r → MembersText s (m :: ms) r

/-- A record. -/
inductive RecordText : Bytes → List Member → Bytes → Prop
  | empty {s r : Bytes} : Blanks s (closeBrace :: r) → RecordText (openBrace :: s) [] r
  | filled {ms : List Member} {s r : Bytes} : MembersText s ms r →
    RecordText (openBrace :: s) ms r

/-- Records with any blanks around them and nothing else. -/
inductive DocumentText : Bytes → List (List Member) → Prop
  | done {s : Bytes} : Blanks s [] → DocumentText s []
  | more {ms : List Member} {records : List (List Member)} {s s₁ r : Bytes} : Blanks s s₁ →
    RecordText s₁ ms r → DocumentText r records → DocumentText s (ms :: records)

/-! ## Literals -/

theorem fitsWord32_iff (n : Int) :
    fitsWord32 n = true ↔ -0x80000000 ≤ n ∧ n ≤ 0xffffffff := by
  have hsize : UInt32.size = 0x100000000 := rfl
  simp only [fitsWord32, hsize, Bool.and_eq_true, decide_eq_true_eq]
  omega

theorem fitsWord64_iff (n : Int) :
    fitsWord64 n = true ↔ -0x8000000000000000 ≤ n ∧ n ≤ 0xffffffffffffffff := by
  have hsize : UInt64.size = 0x10000000000000000 := rfl
  simp only [fitsWord64, hsize, Bool.and_eq_true, decide_eq_true_eq]
  omega

theorem eq_wrap32_iff {n : Int} {v : UInt32} :
    v = wrap32 n ↔ (v.toNat : Int) = n % 0x100000000 := by
  have hsize : UInt32.size = 0x100000000 := rfl
  have hv := v.toNat_lt
  rw [← UInt32.toNat_inj, wrap32, UInt32.toNat_ofNat', hsize]
  omega

theorem eq_wrap64_iff {n : Int} {v : UInt64} :
    v = wrap64 n ↔ (v.toNat : Int) = n % 0x10000000000000000 := by
  have hsize : UInt64.size = 0x10000000000000000 := rfl
  have hv := v.toNat_lt
  rw [← UInt64.toNat_inj, wrap64, UInt64.toNat_ofNat', hsize]
  omega

theorem readString_ok_iff {expected : String} {s r : Bytes} {v : String} :
    readString expected s = .ok (v, r) ↔ ∃ s₁, Blanks s s₁ ∧ Text s₁ v r := by
  constructor
  · intro h
    unfold readString at h
    split at h
    · cases h
    · rename_i hs
      split at h
      · rename_i hquote
        rw [hquote] at hs
        exact ⟨_, blanks_of_skipBlanks hs, readText_ok_iff.mp h⟩
      · cases h
  · rintro ⟨_, hblanks, ⟨htext⟩⟩
    have hread := readText_ok_iff.mpr (.mk htext)
    simp only [readString, hblanks.skipBlanks_cons rfl, if_true, hread]

theorem readWord32_ok_iff {expected : String} {s r : Bytes} {n : Int} :
    readInteger expected fitsWord32 s = .ok (n, r) ↔
      ∃ s₁, Blanks s s₁ ∧ Integer s₁ n r ∧ EndsNumber r ∧ -0x80000000 ≤ n ∧
        n ≤ 0xffffffff := by
  have hmax : maxWord64 = 0xffffffffffffffff := rfl
  have hfits : fitsWord32 n = true → -0x8000000000000000 ≤ n ∧ n ≤ maxWord64 := by
    intro h
    have hn := (fitsWord32_iff n).mp h
    omega
  simp only [readInteger_ok_iff hfits, fitsWord32_iff]

theorem readWord64_ok_iff {expected : String} {s r : Bytes} {n : Int} :
    readInteger expected fitsWord64 s = .ok (n, r) ↔
      ∃ s₁, Blanks s s₁ ∧ Integer s₁ n r ∧ EndsNumber r ∧
        -0x8000000000000000 ≤ n ∧
        n ≤ 0xffffffffffffffff := by
  have hmax : maxWord64 = 0xffffffffffffffff := rfl
  have hfits : fitsWord64 n = true → -0x8000000000000000 ≤ n ∧ n ≤ maxWord64 := by
    intro h
    have hn := (fitsWord64_iff n).mp h
    omega
  simp only [readInteger_ok_iff hfits, fitsWord64_iff]

/-- What is read is a literal. -/
theorem literal_of_read {t : FieldType} {s r : Bytes} {v : t.Value} (h : t.read s = .ok (v, r)) :
    ∃ s₁, Blanks s s₁ ∧ Literal t s₁ v r := by
  cases t with
  | text =>
      obtain ⟨s₁, hblanks, htext⟩ := readString_ok_iff.mp h
      exact ⟨s₁, hblanks, .text htext⟩
  | word32 =>
      simp only [FieldType.read] at h
      split at h
      · cases h
      · rename_i n r' hread
        cases h
        obtain ⟨s₁, hblanks, hinteger, _, hlow, hhigh⟩ := readWord32_ok_iff.mp hread
        exact ⟨s₁, hblanks, .word32 hinteger hlow hhigh (eq_wrap32_iff.mp rfl)⟩
  | word64 =>
      simp only [FieldType.read] at h
      split at h
      · cases h
      · rename_i n r' hread
        cases h
        obtain ⟨s₁, hblanks, hinteger, _, hlow, hhigh⟩ := readWord64_ok_iff.mp hread
        exact ⟨s₁, hblanks, .word64 hinteger hlow hhigh (eq_wrap64_iff.mp rfl)⟩

/-- A literal is read, if no number goes on behind it. -/
theorem read_of_literal {t : FieldType} {s s₁ r : Bytes} {v : t.Value} (hblanks : Blanks s s₁)
    (h : Literal t s₁ v r) (hr : EndsNumber r) : t.read s = .ok (v, r) := by
  cases h with
  | text htext => exact readString_ok_iff.mpr ⟨s₁, hblanks, htext⟩
  | word32 hinteger hlow hhigh hv =>
      have hread : readInteger (FieldType.expectation .word32) fitsWord32 s = .ok (_, r) :=
        readWord32_ok_iff.mpr ⟨s₁, hblanks, hinteger, hr, hlow, hhigh⟩
      simp only [FieldType.read, hread, eq_wrap32_iff.mpr hv]
  | word64 hinteger hlow hhigh hv =>
      have hread : readInteger (FieldType.expectation .word64) fitsWord64 s = .ok (_, r) :=
        readWord64_ok_iff.mpr ⟨s₁, hblanks, hinteger, hr, hlow, hhigh⟩
      simp only [FieldType.read, hread, eq_wrap64_iff.mpr hv]

/-! ## Members -/

theorem readColon_ok_iff {s r : Bytes} : readColon s = .ok r ↔ Blanks s (colon :: r) := by
  constructor
  · intro h
    unfold readColon at h
    split at h
    · cases h
    · rename_i hs
      split at h
      · rename_i hcolon
        cases h
        rw [hcolon] at hs
        exact blanks_of_skipBlanks hs
      · cases h
  · intro h
    simp only [readColon, h.skipBlanks_cons rfl, if_true]

theorem ofKey?_eq_none {key : String} (unknown : ∀ f : Field, f.key ≠ key) :
    Field.ofKey? key = none := by
  cases h : Field.ofKey? key with
  | none => rfl
  | some f => exact absurd (Field.key_of_ofKey? h) (unknown f)

theorem unknown_of_ofKey? {key : String} (h : Field.ofKey? key = none) (f : Field) :
    f.key ≠ key := by
  rintro rfl
  rw [Field.ofKey?_key] at h
  cases h

theorem value_of_readEntry {done es : List Entry} {key : String} {s r : Bytes}
    (h : readEntry done key s = .ok (es, r)) :
    ∃ (m : Member) (s₁ : Bytes), m.key = key ∧ Blanks s (colon :: s₁) ∧
      MemberValue s₁ m r ∧
      es = m.entry?.toList ++ done := by
  unfold readEntry at h
  split at h
  · cases h
  · rename_i s₁ hcolon
    have hblanks := readColon_ok_iff.mp hcolon
    split at h
    · rename_i hkey
      split at h
      · cases h
      · rename_i r' hskip
        cases h
        obtain ⟨s₂, hblanks', hvalue⟩ := value_of_skipValue hskip
        exact ⟨.other key (unknown_of_ofKey? hkey), s₁, rfl, hblanks,
          .other hblanks' hvalue, rfl⟩
    · rename_i f hkey
      split at h
      · cases h
      · rename_i v r' hread
        cases h
        obtain ⟨s₂, hblanks', hliteral⟩ := literal_of_read hread
        exact ⟨.known ⟨f, v⟩, s₁, Field.key_of_ofKey? hkey, hblanks,
          .known hblanks' hliteral, rfl⟩

theorem readEntry_of_value {m : Member} {s s₁ r : Bytes} (hcolon : Blanks s (colon :: s₁))
    (h : MemberValue s₁ m r) (hr : EndsNumber r) (done : List Entry) :
    readEntry done m.key s = .ok (m.entry?.toList ++ done, r) := by
  have hread := readColon_ok_iff.mpr hcolon
  cases h with
  | @known entry _ _ _ hblanks hliteral =>
      simp only [readEntry, hread, Member.key, Field.ofKey?_key,
        read_of_literal hblanks hliteral hr]
      rfl
  | @other key unknown _ _ _ hblanks hvalue =>
      simp only [readEntry, hread, Member.key, ofKey?_eq_none unknown,
        skipValue_of_value hblanks hvalue hr]
      rfl

/-- What stands in front of a member.  The first one has nothing in front of it and any other one a
comma. -/
inductive Lead : Bool → Bytes → Bytes → Prop
  | first (s : Bytes) : Lead true s s
  | next {s r : Bytes} : Blanks s (comma :: r) → Lead false s r

theorem nextMember_close {s r : Bytes} (h : Blanks s (closeBrace :: r)) (first : Bool) :
    nextMember first s = .ok (none, r) := by
  simp only [nextMember, h.skipBlanks_cons rfl, if_true]

theorem nextMember_of_lead {first : Bool} {s s₁ r : Bytes} {b : UInt8} (hlead : Lead first s s₁)
    (hblanks : Blanks s₁ (b :: r)) (hblank : isBlank b = false) (hb : b ≠ closeBrace) :
    nextMember first s = .ok (some (b :: r), b :: r) := by
  have hskip := hblanks.skipBlanks_cons hblank
  cases hlead with
  | first => simp only [nextMember, hskip, if_neg hb, if_true]
  | next hcomma =>
      have hne : comma ≠ closeBrace := by decide
      simp only [nextMember, hcomma.skipBlanks_cons rfl, hskip, if_neg hb, if_neg hne, if_true,
        Bool.false_eq_true, if_false]

theorem nextMember_ok {first : Bool} {s r : Bytes} {t : Option Bytes}
    (h : nextMember first s = .ok (t, r)) :
    (t = none ∧ Blanks s (closeBrace :: r)) ∨ ∃ s₁, t = some r ∧
      Lead first s s₁ ∧ Blanks s₁ r := by
  unfold nextMember at h
  split at h
  · cases h
  · rename_i b u hs
    have hblanks := blanks_of_skipBlanks hs
    split at h
    · rename_i hb
      cases h
      exact .inl ⟨rfl, hb ▸ hblanks⟩
    · split at h
      · rename_i hfirst
        cases h
        cases hfirst
        exact .inr ⟨s, rfl, .first s, hblanks⟩
      · rename_i hfirst
        split at h
        · rename_i hb
          split at h
          · cases h
          · rename_i b' u' hu
            split at h
            · cases h
            · cases h
              rw [Bool.not_eq_true] at hfirst
              cases hfirst
              exact .inr ⟨u, rfl, .next (hb ▸ hblanks), blanks_of_skipBlanks hu⟩
        · cases h

theorem readKey?_none {first : Bool} {s r : Bytes} :
    readKey? first s = .ok (none, r) ↔ Blanks s (closeBrace :: r) := by
  constructor
  · intro h
    unfold readKey? at h
    split at h
    · cases h
    · rename_i hnext
      cases h
      rcases nextMember_ok hnext with ⟨_, hblanks⟩ | ⟨_, hsome, _⟩
      · exact hblanks
      · cases hsome
    · cases h
    · split at h
      · split at h <;> cases h
      · cases h
  · intro h
    simp only [readKey?, nextMember_close h]

theorem readKey?_some {first : Bool} {s r : Bytes} {key : String} :
    readKey? first s = .ok (some key, r) ↔
      ∃ s₁ s₂, Lead first s s₁ ∧ Blanks s₁ s₂ ∧ Text s₂ key r := by
  constructor
  · intro h
    unfold readKey? at h
    split at h
    · cases h
    · cases h
    · cases h
    · rename_i b u _ hnext
      rcases nextMember_ok hnext with ⟨hnone, _⟩ | ⟨s₁, hsome, hlead, hblanks⟩
      · cases hnone
      · cases hsome
        split at h
        · rename_i hb
          split at h
          · cases h
          · rename_i htext
            cases h
            exact ⟨s₁, _, hlead, hblanks, hb ▸ readText_ok_iff.mp htext⟩
        · cases h
  · rintro ⟨s₁, _, hlead, hblanks, ⟨htext⟩⟩
    have hread := readText_ok_iff.mpr (.mk htext)
    simp only [readKey?, nextMember_of_lead hlead hblanks rfl (by decide), if_true, hread]

/-! ## Records -/

theorem foldMembers_close {done : List Entry} {first : Bool} {s r : Bytes}
    (h : Blanks s (closeBrace :: r)) : foldMembers entryStep done first s = .ok (done, r) := by
  rw [foldMembers, readKey?_none.mpr h]

theorem foldMembers_member {m : Member} {first : Bool} {s s₁ s₂ : Bytes}
    (hlead : Lead first s s₁) (h : MemberText s₁ m s₂) (hs₂ : EndsNumber s₂)
    (done : List Entry) :
    foldMembers entryStep done first s =
      foldMembers entryStep (m.entry?.toList ++ done) false s₂ := by
  cases h with
  | mk hblanks htext hcolon hvalue =>
      have hkey := readKey?_some.mpr ⟨_, _, hlead, hblanks, htext⟩
      have hentry : entryStep.run done m.key _ = _ := readEntry_of_value hcolon hvalue hs₂ done
      rw [foldMembers, hkey]
      dsimp only
      rw [hentry]

/-- Entries are collected from the front, so that the last one comes first. -/
theorem reverse_entries_cons (m : Member) (ms : List Member) (done : List Entry) :
    (entries (m :: ms)).reverse ++ done = (entries ms).reverse ++ (m.entry?.toList ++ done) := by
  cases m with
  | known entry => simp [Member.entry?]
  | other => rfl

theorem foldMembers_of_text {ms : List Member} {s r : Bytes} (h : MembersText s ms r) {first : Bool}
    {s' : Bytes} (hlead : Lead first s' s) (done : List Entry) :
    foldMembers entryStep done first s' = .ok ((entries ms).reverse ++ done, r) := by
  induction h generalizing first s' done with
  | last hmember hclose =>
      have hends := endsNumber_of_blanks hclose (endsNumber_closing .object _)
      rw [foldMembers_member hlead hmember hends, foldMembers_close hclose, reverse_entries_cons]
      rfl
  | more hmember hcomma _ ih =>
      have hends := endsNumber_of_blanks hcomma (endsNumber_comma _)
      rw [foldMembers_member hlead hmember hends, ih (.next hcomma), reverse_entries_cons]

/-- What is read behind an opening brace is empty or consists of members. -/
theorem text_of_foldMembers {done es : List Entry} {first : Bool} {s r : Bytes}
    (h : foldMembers entryStep done first s = .ok (es, r)) :
    (es = done ∧ Blanks s (closeBrace :: r)) ∨
      ∃ (ms : List Member) (s₁ : Bytes), Lead first s s₁ ∧ MembersText s₁ ms r ∧
        es = (entries ms).reverse ++ done := by
  fun_induction foldMembers entryStep done first s with
  | case1 => cases h
  | case2 done first s r' hkey =>
      cases h
      exact .inl ⟨rfl, readKey?_none.mp hkey⟩
  | case3 => cases h
  | case4 done first s key s₁ hkey done' s₂ hentry ih =>
      obtain ⟨s₀, s₀', hlead, hblanks, htext⟩ := readKey?_some.mp hkey
      obtain ⟨m, s₃, rfl, hcolon, hvalue, rfl⟩ := value_of_readEntry hentry
      have hmember : MemberText s₀ m s₂ := .mk hblanks htext hcolon hvalue
      refine .inr ?_
      -- Behind the member the object is closed, or more members follow.
      rcases ih h with ⟨rfl, hclose⟩ | ⟨ms, s₄, hnext, hmembers, rfl⟩
      · exact ⟨[m], s₀, hlead, .last hmember hclose, (reverse_entries_cons m [] done).symm⟩
      · cases hnext with
        | next hcomma =>
            exact ⟨m :: ms, s₀, hlead, .more hmember hcomma hmembers,
              (reverse_entries_cons m ms done).symm⟩

/-- The text of a record is read to its end and gives the entries of its members. -/
theorem readRecord_of_text {ms : List Member} {s s₁ r : Bytes} (hblanks : Blanks s s₁)
    (h : RecordText s₁ ms r) : readRecord s = .ok (entries ms, r) := by
  cases h with
  | empty hclose =>
      simp only [readRecord, hblanks.skipBlanks_cons rfl, if_true, foldMembers_close hclose]
      rfl
  | filled hmembers =>
      simp only [readRecord, hblanks.skipBlanks_cons rfl, if_true,
        foldMembers_of_text hmembers (.first _), List.append_nil, List.reverse_reverse]

/-- What is read is the text of a record. -/
theorem text_of_readRecord {s r : Bytes} {es : List Entry} (h : readRecord s = .ok (es, r)) :
    ∃ (ms : List Member) (s₁ : Bytes), Blanks s s₁ ∧ RecordText s₁ ms r ∧
      es = entries ms := by
  unfold readRecord at h
  split at h
  · cases h
  · rename_i b u hs
    split at h
    · rename_i hb
      rw [hb] at hs
      split at h
      · cases h
      · rename_i done r' hfold
        cases h
        rcases text_of_foldMembers hfold with
          ⟨rfl, hclose⟩ | ⟨ms, s₁, hlead, hmembers, rfl⟩
        · exact ⟨[], _, blanks_of_skipBlanks hs, .empty hclose, rfl⟩
        · cases hlead
          rw [List.append_nil, List.reverse_reverse]
          exact ⟨ms, _, blanks_of_skipBlanks hs, .filled hmembers, rfl⟩
    · cases h

/-! ## Documents -/

theorem RecordText.exists_eq {ms : List Member} {s r : Bytes} (h : RecordText s ms r) :
    ∃ u, s = openBrace :: u := by
  cases h <;> exact ⟨_, rfl⟩

theorem readEvents_blank {s : Bytes} (h : Blanks s []) : readEvents s = .ok [] := by
  have hs : skipBlanks s = [] := h.skipBlanks_eq
  rw [readEvents, hs]

theorem readEvents_record {ms : List Member} {s s₁ r : Bytes} (hblanks : Blanks s s₁)
    (h : RecordText s₁ ms r) :
    readEvents s =
      match Event.ofEntries? (entries ms) with
      | .error missing => .error (.incomplete missing)
      | .ok event => (readEvents r).map (event :: ·) := by
  obtain ⟨u, rfl⟩ := h.exists_eq
  have hs := hblanks.skipBlanks_cons rfl
  have hread := readRecord_of_text (.done _) h
  rw [readEvents, hs]
  dsimp only
  rw [hread]
  dsimp only
  cases Event.ofEntries? (entries ms) with
  | error missing => rfl
  | ok event => cases readEvents r <;> rfl

/-- What is read are the records of a document, each with all that it needs. -/
theorem text_of_readEvents {s : Bytes} {es : List Event} (h : readEvents s = .ok es) :
    ∃ records, DocumentText s records ∧
      records.map (fun ms => Event.ofEntries? (entries ms)) = es.map .ok := by
  fun_induction readEvents s generalizing es with
  | case1 s hs =>
      cases h
      exact ⟨[], .done (blanks_of_skipBlanks hs), rfl⟩
  | case2 => cases h
  | case3 => cases h
  | case4 => cases h
  | case5 s b u hs es' r hread event hevent events htail ih =>
      cases h
      obtain ⟨ms, s₁, hblanks, hrecord, rfl⟩ := text_of_readRecord hread
      obtain ⟨records, hdocument, hrecords⟩ := ih htail
      refine ⟨ms :: records, .more ((blanks_of_skipBlanks hs).trans hblanks) hrecord hdocument,
        ?_⟩
      rw [List.map_cons, hevent, hrecords, List.map_cons]

end Lineage.Audit

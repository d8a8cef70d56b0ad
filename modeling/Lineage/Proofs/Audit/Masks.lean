import Lineage.Audit.FlagText
import Lineage.Proofs.Audit.Entries
import Lineage.Proofs.Json.Printer
import Lineage.Proofs.Text.Hex
import Lineage.Proofs.Text.Spaced

/-!
# Masks and their flag texts

A part of a flag text is the name of a field, the name of the nine required fields together, or a
hexadecimal number of 32 bits (`FlagPart`).  A text is read to the union of what its parts stand
for, and only if all of them stand for something (`ofFlagText?_eq_some_iff`).  The union depends on
which parts there are and on nothing else, so neither their order nor their number counts.

Each bit of a mask is written, by the name of its field or in the number at the end, so every mask
comes back, the bits without a field included (`masks_survive_text`).
-/

namespace Lineage.Audit

open Lineage.Json
open Lineage.Json.Grammar

/-! ## Names of fields -/

theorem Field.map_toLower_flagName (f : Field) :
    f.flagName.toList.map Char.toLower = f.key.toList := by
  cases f <;> decide +kernel

theorem Field.flagName_injective {f g : Field} (h : f.flagName.toList = g.flagName.toList) :
    f = g := by
  have hkeys := congrArg (List.map Char.toLower) h
  rw [map_toLower_flagName, map_toLower_flagName] at hkeys
  exact key_injective (String.toList_inj.mp hkeys)

theorem Field.ofFlagName?_flagName (f : Field) : ofFlagName? f.flagName.toList = some f := by
  cases hfound : ofFlagName? f.flagName.toList with
  | none =>
      have hnot := List.find?_eq_none.mp hfound f (mem_all f)
      simp at hnot
  | some g =>
      have hname := List.find?_some hfound
      rw [flagName_injective (eq_of_beq hname)]

namespace FieldSet

/-! ## Parts -/

/-- The parts of flag texts and the sets that they stand for. -/
inductive FlagPart : List Char → FieldSet → Prop
  /-- The name of a field. -/
  | field (f : Field) : FlagPart f.flagName.toList (singleton f)
  /-- The name of the required fields together. -/
  | required : FlagPart requiredName.toList required
  /-- A hexadecimal number. -/
  | bits {cs : List Char} {n : Nat} : Text.SpellsHex cs n → n < UInt32.size →
    FlagPart ('0' :: 'x' :: cs) ⟨BitVec.ofNat 32 n⟩

theorem FlagPart.ofFlagPart?_eq {part : List Char} {t : FieldSet} (h : FlagPart part t) :
    ofFlagPart? part = some t := by
  have hfirst : ∀ f : Field, (f.flagName.toList.head? == some '0') = false := by
    intro f
    cases f <;> decide +kernel
  cases h with
  | field f =>
      unfold ofFlagPart?
      split
      · rename_i hname
        have hhead := hfirst f
        rw [hname] at hhead
        cases hhead
      · rw [Field.ofFlagName?_flagName]
  | required => decide +kernel
  | bits hspells hlt =>
      simp only [ofFlagPart?, Text.unsignedHex?_eq_some_iff.mpr hspells, if_pos hlt]

theorem flagPart_of_ofFlagPart? {part : List Char} {t : FieldSet} (h : ofFlagPart? part = some t) :
    FlagPart part t := by
  unfold ofFlagPart? at h
  split at h
  · split at h
    · rename_i n hn
      split at h
      · rename_i hlt
        cases h
        exact .bits (Text.unsignedHex?_eq_some_iff.mp hn) hlt
      · cases h
    · cases h
  · split at h
    · rename_i f hf
      cases h
      have hname := List.find?_some hf
      rw [← eq_of_beq hname]
      exact .field f
    · split at h
      · rename_i hname
        cases h
        rw [hname]
        exact .required
      · cases h

/-- Whether a text has no blanks and no bars, and is not empty. -/
def standsApart (part : List Char) : Bool :=
  !part.isEmpty && part.all fun c => !Text.isBlank c && c != '|'

theorem standsApart_iff {part : List Char} :
    standsApart part = true ↔
      part ≠ [] ∧ ∀ c ∈ part, Text.isBlank c = false ∧ c ≠ '|' := by
  simp [standsApart]

/-- A part has no blanks and no bars, and it is not empty. -/
theorem FlagPart.apart {part : List Char} {t : FieldSet} (h : FlagPart part t) :
    part ≠ [] ∧ ∀ c ∈ part, Text.isBlank c = false ∧ c ≠ '|' := by
  have hall : ∀ f : Field, standsApart f.flagName.toList = true := by
    intro f
    cases f <;> decide +kernel
  have hrequired : standsApart requiredName.toList = true := by decide +kernel
  cases h with
  | field f => exact standsApart_iff.mp (hall f)
  | required => exact standsApart_iff.mp hrequired
  | @bits cs n hspells _ =>
      have hdigits : ∀ {ds : List Char}, Text.HexDigits ds n →
          ∀ c ∈ ds, Text.isBlank c = false ∧ c ≠ '|' := by
        intro ds h c hc
        obtain ⟨d, hd⟩ := h.exists_hexDigit hc
        exact ⟨hd.apart.1, hd.apart.2.1⟩
      refine ⟨by simp, ?_⟩
      rw [List.forall_mem_cons, List.forall_mem_cons]
      refine ⟨by decide, by decide, ?_⟩
      cases hspells with
      | plain h => exact hdigits h
      | plus h =>
          rw [List.forall_mem_cons]
          exact ⟨by decide, hdigits h⟩

/-- A part may stand between bars, with blanks around it. -/
theorem FlagPart.around {part before after : List Char} {t : FieldSet} (h : FlagPart part t)
    (hbefore : ∀ c ∈ before, Text.isBlank c = true)
    (hafter : ∀ c ∈ after, Text.isBlank c = true) :
    (⟨before, part, after⟩ : Text.Spaced).Around '|' where
  before := hbefore
  after := hafter
  trimmed := Text.trim_eq_self fun c hc => (h.apart.2 c hc).1
  ne_nil := h.apart.1
  apart hbar := (h.apart.2 _ hbar).2 rfl

/-- A part stands for one set. -/
theorem FlagPart.unique {part : List Char} {t t' : FieldSet} (h : FlagPart part t)
    (h' : FlagPart part t') :
    t = t' :=
  Option.some.inj (h.ofFlagPart?_eq.symm.trans h'.ofFlagPart?_eq)

/-! ## Unions -/

/-- The parts of a flag text without the blanks around them.  A blank text has none. -/
def partsOf (text : List Char) : List (List Char) :=
  if (Text.trim text).isEmpty then [] else (Text.pieces '|' text).map Text.trim

/-- All of some parts stand for something, and a set has the bits of what they stand for. -/
structure IsUnion (parts : List (List Char)) (s : FieldSet) : Prop where
  readable : ∀ part ∈ parts, ∃ t, FlagPart part t
  bits : ∀ i, s.bits.getLsbD i = true ↔
    ∃ part ∈ parts, ∃ t, FlagPart part t ∧ t.bits.getLsbD i = true

/-- Which parts there are decides on the union. -/
theorem IsUnion.congr {parts parts' : List (List Char)} {s : FieldSet} (h : IsUnion parts s)
    (hsame : ∀ part, part ∈ parts' ↔ part ∈ parts) : IsUnion parts' s where
  readable part hpart := h.readable part ((hsame part).mp hpart)
  bits i := by
    rw [h.bits i]
    simp only [hsame]

theorem ofFlagParts?_eq_some_iff {s t : FieldSet} {pieces : List (List Char)} :
    ofFlagParts? s pieces = some t ↔
      (∀ part ∈ pieces.map Text.trim, ∃ u, FlagPart part u) ∧
        ∀ i, t.bits.getLsbD i = true ↔ s.bits.getLsbD i = true ∨
          ∃ part ∈ pieces.map Text.trim, ∃ u, FlagPart part u ∧
            u.bits.getLsbD i = true := by
  induction pieces generalizing s with
  | nil =>
      simp only [ofFlagParts?, List.map_nil, List.not_mem_nil, false_and, exists_false, or_false,
        false_implies, implies_true, true_and, Option.some.injEq]
      exact ⟨fun h i => by rw [h], fun h => ext_getLsbD fun i => (h i).symm⟩
  | cons piece pieces ih =>
      rw [ofFlagParts?, List.map_cons, List.forall_mem_cons]
      cases hpart : ofFlagPart? (Text.trim piece) with
      | none =>
          simp only [reduceCtorEq, false_iff]
          rintro ⟨⟨⟨u, hu⟩, _⟩, _⟩
          rw [hu.ofFlagPart?_eq] at hpart
          cases hpart
      | some u =>
          have hu := flagPart_of_ofFlagPart? hpart
          have honly : ∀ i, (∃ u', FlagPart (Text.trim piece) u' ∧
              u'.bits.getLsbD i = true) ↔
              u.bits.getLsbD i = true := by
            intro i
            constructor
            · rintro ⟨u', hu', hbit⟩
              rw [hu.unique hu']
              exact hbit
            · exact fun hbit => ⟨u, hu, hbit⟩
          have hunion : ∀ i, (s.union u).bits.getLsbD i = true ↔
              s.bits.getLsbD i = true ∨ u.bits.getLsbD i = true := by
            intro i
            rw [union, BitVec.getLsbD_or, Bool.or_eq_true]
          have hpiece : ∃ u, FlagPart (Text.trim piece) u := ⟨u, hu⟩
          simp only [ih, hunion, List.mem_cons, or_and_right, exists_or,
            exists_eq_left, honly, hpiece, true_and, or_assoc]

/-- A text is read to the union of its parts. -/
theorem ofFlagText?_eq_some_iff {text : String} {s : FieldSet} :
    ofFlagText? text = some s ↔ IsUnion (partsOf text.toList) s := by
  unfold ofFlagText? partsOf
  split
  · constructor
    · intro h
      cases h
      refine ⟨by simp, fun i => ?_⟩
      simp [getLsbD_empty]
    · intro h
      refine congrArg some (ext_getLsbD fun i => ?_)
      rw [h.bits i, getLsbD_empty]
      simp
  · rw [ofFlagParts?_eq_some_iff]
    simp only [getLsbD_empty, Bool.false_eq_true, false_or]
    exact ⟨fun h => ⟨h.1, h.2⟩, fun h => ⟨h.readable, h.bits⟩⟩

/-! ## The parts that are written -/

/-- The known bits are those of the fields. -/
theorem getLsbD_known (i : Nat) : known.bits.getLsbD i = true ↔ ∃ f : Field, f.index = i := by
  rw [known, getLsbD_ofList]
  simp only [Field.mem_all, true_and]

theorem getLsbD_singleton (f : Field) (i : Nat) :
    (singleton f).bits.getLsbD i = true ↔ f.index = i := by
  have hlt : f.index < 32 := Nat.lt_trans f.index_lt (by decide)
  rw [singleton, BitVec.getLsbD_twoPow]
  simp [hlt]

theorem mem_flagParts {s : FieldSet} {part : List Char} :
    part ∈ s.flagParts.map String.toList ↔
      (∃ f, s.has f = true ∧ part = f.flagName.toList) ∨
      s.diff known ≠ empty ∧ part =
        '0' :: 'x' :: Nat.toDigits 16 (s.diff known).bits.toNat := by
  have hhex : ("0x" ++ Text.hex (s.diff known).bits.toNat).toList =
      '0' :: 'x' :: Nat.toDigits 16 (s.diff known).bits.toNat := by
    simp [Text.hex]
  rw [flagParts, List.map_append, List.mem_append, List.map_map]
  refine or_congr ?_ ?_
  · simp only [List.mem_map, toList, List.mem_filter, Field.mem_all, true_and, Function.comp_apply,
      eq_comm (a := part)]
  · split
    · rename_i hrest
      simp [hrest]
    · rename_i hrest
      simp [hrest, hhex]

/-- The parts that are written for a set stand for its bits. -/
theorem isUnion_flagParts (s : FieldSet) : IsUnion (s.flagParts.map String.toList) s := by
  have hnumber : FlagPart ('0' :: 'x' :: Nat.toDigits 16 (s.diff known).bits.toNat)
      (s.diff known) := by
    have h := FlagPart.bits (.plain (Text.hexDigits_toDigits (s.diff known).bits.toNat))
      (s.diff known).bits.isLt
    rw [BitVec.ofNat_toNat, BitVec.setWidth_eq] at h
    exact h
  constructor
  · intro part hpart
    rcases mem_flagParts.mp hpart with ⟨f, _, rfl⟩ | ⟨_, rfl⟩
    · exact ⟨_, .field f⟩
    · exact ⟨_, hnumber⟩
  · intro i
    constructor
    · intro hbit
      -- A bit of a field is in its name, and any other one in the number.
      by_cases hknown : known.bits.getLsbD i = true
      · obtain ⟨f, rfl⟩ := (getLsbD_known i).mp hknown
        exact ⟨_, mem_flagParts.mpr (.inl ⟨f, hbit, rfl⟩), _, .field f,
          (getLsbD_singleton f _).mpr rfl⟩
      · have hrest := (getLsbD_diff s known i).mpr ⟨hbit, hknown⟩
        have hne : s.diff known ≠ empty := by
          intro hempty
          rw [hempty, getLsbD_empty] at hrest
          cases hrest
        exact ⟨_, mem_flagParts.mpr (.inr ⟨hne, rfl⟩), _, hnumber, hrest⟩
    · rintro ⟨part, hpart, t, ht, hbit⟩
      rcases mem_flagParts.mp hpart with ⟨f, hf, rfl⟩ | ⟨_, rfl⟩
      · rw [ht.unique (.field f), getLsbD_singleton] at hbit
        rw [← hbit]
        exact hf
      · rw [ht.unique hnumber] at hbit
        exact ((getLsbD_diff s known i).mp hbit).1

/-- A row of parts with blanks around the bars is cut into them. -/
theorem partsOf_spacedText {xs : List Text.Spaced} (h : ∀ x ∈ xs, x.Around '|') :
    partsOf (Text.spacedText '|' xs) = xs.map Text.Spaced.piece := by
  cases xs with
  | nil => rfl
  | cons x xs =>
      have hne : (Text.trim (Text.spacedText '|' (x :: xs))).isEmpty = false := by
        rw [List.isEmpty_eq_false_iff]
        exact Text.trim_spacedText_ne_nil (List.cons_ne_nil x xs) h
      rw [partsOf, hne, if_neg Bool.false_ne_true]
      exact Text.trim_pieces_spacedText (by decide) (List.cons_ne_nil x xs) h

/-- The text that is written is cut into the parts that are written. -/
theorem partsOf_flagText (s : FieldSet) :
    partsOf s.flagText.toList = s.flagParts.map String.toList := by
  have hparts : ∀ p ∈ s.flagParts.map String.toList, Text.trim p = p ∧
      p ≠ [] ∧ '|' ∉ p := by
    intro p hp
    obtain ⟨t, ht⟩ := (isUnion_flagParts s).readable p hp
    have haround := ht.around (List.forall_mem_nil _) (List.forall_mem_nil _)
    exact ⟨haround.trimmed, haround.ne_nil, haround.apart⟩
  have htext : s.flagText.toList =
      Text.spacedText '|' (Text.Spaced.row [] (s.flagParts.map String.toList)) := by
    rw [flagText, String.toList_intercalate]
    cases s.flagParts.map String.toList with
    | nil => rfl
    | cons p ps =>
        rw [Text.spacedText_row]
        rfl
  rw [htext, partsOf_spacedText (Text.Spaced.around_row (by simp) hparts),
    Text.Spaced.map_piece_row]

/-! ## In JSON -/

/-- A string of JSON is read to the set of its text. -/
theorem decode_printString (text : String) (s : FieldSet) :
    decode read (utf8 (printString text)) = .ok s ↔ ofFlagText? text = some s := by
  have htext := text_printString text []
  rw [List.append_nil] at htext
  have hread : readString flagTextName (utf8 (printString text)) = .ok (text, []) :=
    readString_ok_iff.mpr ⟨_, .done _, htext⟩
  cases hset : ofFlagText? text with
  | none => simp [decode, read, hread, hset]
  | some t => simp [decode, read, hread, hset, readEnd, skipBlanks]

/-- Every mask comes back from its text, whatever its bits.  A text is read to the union of its
parts, and neither their order and number nor the blanks around them count. -/
theorem masks_survive_text :
    (∀ s : FieldSet, decode read (utf8 (printString s.flagText)) = .ok s) ∧
      (∀ (text : String) (s : FieldSet),
        decode read (utf8 (printString text)) = .ok s ↔ IsUnion (partsOf text.toList) s) ∧
      ∀ xs ys : List Text.Spaced, (∀ x ∈ xs ++ ys, x.Around '|') →
        (∀ part, part ∈ xs.map Text.Spaced.piece ↔ part ∈ ys.map Text.Spaced.piece) →
          ∀ s : FieldSet,
            decode read (utf8 (printString (String.ofList (Text.spacedText '|' xs)))) = .ok s ↔
              decode read (utf8 (printString (String.ofList (Text.spacedText '|' ys)))) =
                .ok s := by
  refine ⟨fun s => ?_, fun text s => ?_, fun xs ys haround hsame s => ?_⟩
  · rw [decode_printString, ofFlagText?_eq_some_iff, partsOf_flagText]
    exact isUnion_flagParts s
  · rw [decode_printString, ofFlagText?_eq_some_iff]
  · have hxs := partsOf_spacedText fun x hx => haround x (List.mem_append_left ys hx)
    have hys := partsOf_spacedText fun y hy => haround y (List.mem_append_right xs hy)
    rw [decode_printString, decode_printString, ofFlagText?_eq_some_iff, ofFlagText?_eq_some_iff,
      String.toList_ofList, String.toList_ofList, hxs, hys]
    exact ⟨fun h => h.congr fun part => (hsame part).symm, fun h => h.congr hsame⟩

/-- The required fields and a bit without a field, in two orders and with repetitions. -/
theorem masks_survive_text_twice :
    let one : List Text.Spaced :=
      [⟨[], "REQUIRED".toList, [' ']⟩, ⟨[' '], "0x80000000".toList, []⟩]
    let other : List Text.Spaced :=
      [⟨['\n'], "0x80000000".toList, []⟩, ⟨[], "REQUIRED".toList, []⟩,
        ⟨[], "REQUIRED".toList, []⟩]
    (∀ x ∈ one ++ other, x.Around '|') ∧
      (∀ part, part ∈ one.map Text.Spaced.piece ↔ part ∈ other.map Text.Spaced.piece) ∧
        decode read (utf8 (printString (String.ofList (Text.spacedText '|' other)))) =
          .ok ⟨0x8021807d⟩ := by
  intro one other
  have haround : ∀ x ∈ one ++ other, x.Around '|' := by
    intro x hx
    have hnumber : FlagPart "0x80000000".toList ⟨0x80000000⟩ :=
      flagPart_of_ofFlagPart? (by decide +kernel)
    simp only [one, other, List.mem_append, List.mem_cons, List.not_mem_nil, or_false] at hx
    rcases hx with (rfl | rfl) | rfl | rfl | rfl
    · exact FlagPart.required.around (List.forall_mem_nil _) (List.forall_mem_singleton.mpr rfl)
    · exact hnumber.around (List.forall_mem_singleton.mpr rfl) (List.forall_mem_nil _)
    · exact hnumber.around (List.forall_mem_singleton.mpr rfl) (List.forall_mem_nil _)
    · exact FlagPart.required.around (List.forall_mem_nil _) (List.forall_mem_nil _)
    · exact FlagPart.required.around (List.forall_mem_nil _) (List.forall_mem_nil _)
  have hsame : ∀ part, part ∈ one.map Text.Spaced.piece ↔
      part ∈ other.map Text.Spaced.piece := by
    intro part
    simp only [one, other, List.map_cons, List.map_nil, List.mem_cons, List.not_mem_nil, or_false]
    tauto
  refine ⟨haround, hsame, (masks_survive_text.2.2 one other haround hsame _).mp ?_⟩
  rw [decode_printString]
  decide +kernel

end FieldSet

end Lineage.Audit

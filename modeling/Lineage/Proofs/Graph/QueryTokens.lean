import Lineage.Graph.Cypher
import Lineage.Proofs.Json.Printer

/-!
# Queries as tokens

A query is read as tokens: words, numbers, marks, and strings between double quotes as JSON writes
them (`tokens?`).  Blanks stand between tokens and are no part of any.

A query that was put together from tokens and blanks (`Piece`) is read as these tokens, whatever
strings and numbers they hold, if a blank or a mark parts the words and numbers (`tokens?_pieces`).
-/

namespace Lineage.Graph.Cypher

open Lineage.Json
open Lineage.Json.Grammar

/-! ## Tokens -/

/-- A token of a query. -/
inductive Token where
  /-- Letters, digits and underscores, of which the first is no digit. -/
  | word (w : String)
  /-- A number in decimal. -/
  | number (n : Nat)
  /-- A string between double quotes. -/
  | text (t : String)
  /-- Any other character of ASCII. -/
  | mark (c : Char)
  deriving DecidableEq, Repr

/-- The letters and the underscore. -/
def isLetter (b : UInt8) : Bool :=
  (0x41 ≤ b && b ≤ 0x5a) || (0x61 ≤ b && b ≤ 0x7a) || b == 0x5f

/-- The bytes of a word behind its first one. -/
def isWordByte (b : UInt8) : Bool := isLetter b || isDigit b

/-- The tokens of a query, if it consists of tokens. -/
def tokens? (s : Bytes) : Option (List Token) :=
  match s with
  | [] => some []
  | b :: r =>
    if isBlank b then tokens? r
    else if b = quote then
      match _h : readText r with
      | .error _ => none
      | .ok (t, r') => (tokens? r').map (.text t :: ·)
    else if isDigit b then
      (tokens? (skipDigits r)).map (.number (digitsFrom (digitValue b) (leadingDigits r)) :: ·)
    else if isLetter b then
      (String.fromUTF8? (b :: r.takeWhile isWordByte).toByteArray).bind fun w =>
        (tokens? (r.dropWhile isWordByte)).map (.word w :: ·)
    else if b < 0x80 then (tokens? r).map (.mark (Char.ofNat b.toNat) :: ·)
    else none
termination_by s.length
decreasing_by
  · exact Nat.lt_succ_self _
  · have := length_readText_lt _h
    rw [List.length_cons]
    omega
  · exact Nat.lt_succ_of_le (List.dropWhile_sublist _).length_le
  · exact Nat.lt_succ_of_le (List.dropWhile_sublist _).length_le
  · exact Nat.lt_succ_self _

/-! ## Reading one token -/

theorem isDigit_toNat {b : UInt8} (h : isDigit b = true) :
    0x30 ≤ b.toNat ∧ b.toNat ≤ 0x39 := by
  rw [isDigit, Bool.and_eq_true, decide_eq_true_eq, decide_eq_true_eq] at h
  exact ⟨UInt8.le_iff_toNat_le.mp h.1, UInt8.le_iff_toNat_le.mp h.2⟩

theorem isLetter_toNat {b : UInt8} (h : isLetter b = true) : 0x3a ≤ b.toNat := by
  simp only [isLetter, Bool.or_eq_true, Bool.and_eq_true, decide_eq_true_eq, beq_iff_eq,
    UInt8.le_iff_toNat_le] at h
  rcases h with (⟨h, -⟩ | ⟨h, -⟩) | rfl
  · exact Nat.le_trans (by decide) h
  · exact Nat.le_trans (by decide) h
  · decide

/-- Neither a blank nor a quote is that great. -/
theorem not_blank_of_le {b : UInt8} (h : 0x30 ≤ b.toNat) :
    ¬ isBlank b = true ∧ b ≠ quote := by
  refine ⟨fun hblank => ?_, ?_⟩
  · simp only [isBlank, Bool.or_eq_true, beq_iff_eq] at hblank
    rcases hblank with ((rfl | rfl) | rfl) | rfl <;> exact absurd h (by decide)
  · rintro rfl
    exact absurd h (by decide)

/-- A text that does not go on with a letter or a digit. -/
def EndsWord (r : Bytes) : Prop := ∀ b ∈ r.head?, isWordByte b = false

theorem EndsWord.noDigit {r : Bytes} (h : EndsWord r) : NoDigit r := fun b hb =>
  (Bool.or_eq_false_iff.mp (h b hb)).2

theorem EndsWord.cut {r : Bytes} (h : EndsWord r) :
    r.takeWhile isWordByte = [] ∧ r.dropWhile isWordByte = r := by
  cases r with
  | nil => exact ⟨rfl, rfl⟩
  | cons b r =>
      have hb : isWordByte b = false := h b rfl
      exact ⟨List.takeWhile_cons_of_neg (by simp [hb]),
        List.dropWhile_cons_of_neg (by simp [hb])⟩

theorem tokens?_nil : tokens? [] = some [] := by
  rw [tokens?]

theorem tokens?_blank {b : UInt8} (hb : isBlank b = true) (r : Bytes) :
    tokens? (b :: r) = tokens? r := by
  rw [tokens?, if_pos hb]

/-- A string that was written is one token, whatever it holds. -/
theorem tokens?_text (t : String) (r : Bytes) :
    tokens? (utf8 (printString t) ++ r) = (tokens? r).map (.text t :: ·) := by
  have htext := text_printString t r
  generalize utf8 (printString t) ++ r = s at htext
  cases htext with
  | mk hbytes =>
      rename_i s
      have hread := readText_ok_iff.mpr (.mk hbytes)
      rw [tokens?, if_neg (by decide), if_pos rfl]
      split
      next f hfault => cases hfault.symm.trans hread
      next t' r' hok => cases hok.symm.trans hread; rfl

theorem tokens?_digit {b : UInt8} (hb : isDigit b = true) {s r : Bytes} {n : Nat}
    (h : Digits (digitValue b) s n r) (hr : NoDigit r) :
    tokens? (b :: s) = (tokens? r).map (.number n :: ·) := by
  obtain ⟨hblank, hquote⟩ := not_blank_of_le (isDigit_toNat hb).1
  obtain ⟨hvalue, hrest⟩ := h.eq_of_noDigit hr
  rw [tokens?, if_neg hblank, if_neg hquote, if_pos hb, hvalue, hrest]

/-- A number that was written is one token. -/
theorem tokens?_number (n : Nat) {r : Bytes} (hr : EndsWord r) :
    tokens? (utf8 (toString n) ++ r) = (tokens? r).map (.number n :: ·) := by
  have hwhole := whole_repr n r
  generalize utf8 (toString n) ++ r = s at hwhole
  cases hwhole with
  | zero => exact tokens?_digit rfl (.done 0 r) hr.noDigit
  | digits hb _ hdigits => exact tokens?_digit hb hdigits hr.noDigit

/-- A text of letters and digits that begins with a letter. -/
def isName (w : String) : Bool :=
  match utf8 w with
  | [] => false
  | b :: bs => isLetter b && bs.all isWordByte

theorem tokens?_word {w : String} (hw : isName w = true) {r : Bytes} (hr : EndsWord r) :
    tokens? (utf8 w ++ r) = (tokens? r).map (.word w :: ·) := by
  unfold isName at hw
  split at hw
  next => cases hw
  next b bs hbytes =>
    rw [Bool.and_eq_true] at hw
    have hb := isLetter_toNat hw.1
    obtain ⟨hblank, hquote⟩ := not_blank_of_le (Nat.le_trans (by decide) hb)
    have hdigit : ¬ isDigit b = true := fun h => absurd (isDigit_toNat h).2 (by omega)
    have hall := List.all_eq_true.mp hw.2
    have hword : (bs ++ r).takeWhile isWordByte = bs := by
      rw [List.takeWhile_append_of_pos hall, hr.cut.1, List.append_nil]
    have hrest : (bs ++ r).dropWhile isWordByte = r := by
      rw [List.dropWhile_append_of_pos hall, hr.cut.2]
    have htext : String.fromUTF8? (b :: bs).toByteArray = some w :=
      fromUTF8?_eq_some_iff.mpr hbytes.symm
    rw [hbytes, List.cons_append, tokens?, if_neg hblank, if_neg hquote, if_neg hdigit, if_pos hw.1,
      hword, hrest, htext]
    rfl

/-- A character that is a token of its own. -/
def isMark (c : Char) : Bool :=
  c.toNat < 0x80 && !isBlank c.toNat.toUInt8 && c.toNat.toUInt8 != quote &&
    !isWordByte c.toNat.toUInt8

theorem tokens?_mark {c : Char} (hc : isMark c = true) (r : Bytes) :
    tokens? (c.toNat.toUInt8 :: r) = (tokens? r).map (.mark c :: ·) := by
  simp only [isMark, Bool.and_eq_true, decide_eq_true_eq, Bool.not_eq_true', bne_iff_ne, isWordByte,
    Bool.or_eq_false_iff] at hc
  obtain ⟨⟨⟨hlt, hblank⟩, hquote⟩, hletter, hdigit⟩ := hc
  have hnat : c.toNat.toUInt8.toNat = c.toNat := by
    rw [Nat.toUInt8, UInt8.toNat_ofNat', Nat.mod_eq_of_lt (by omega)]
  have hascii : c.toNat.toUInt8 < 0x80 := by
    rw [UInt8.lt_iff_toNat_lt, hnat]
    exact hlt
  rw [tokens?, if_neg (by simp [hblank]), if_neg hquote, if_neg (by simp [hdigit]),
    if_neg (by simp [hletter]), if_pos hascii, hnat, Char.ofNat_toNat]

/-! ## Queries that are put together -/

/-- What a query is put together from. -/
inductive Piece where
  /-- A blank. -/
  | blank (b : UInt8)
  /-- A token. -/
  | token (t : Token)

namespace Piece

/-- A space. -/
abbrev space : Piece := .blank 0x20

/-- A word of a query. -/
abbrev word (w : String) : Piece := .token (.word w)

/-- A mark in a query. -/
abbrev mark (c : Char) : Piece := .token (.mark c)

/-- A number in a query. -/
abbrev number (n : Nat) : Piece := .token (.number n)

/-- A string in a query. -/
abbrev text (t : String) : Piece := .token (.text t)

/-- The bytes of a piece. -/
def bytes : Piece → Bytes
  | .blank b => [b]
  | .token (.word w) => utf8 w
  | .token (.number n) => utf8 (toString n)
  | .token (.text t) => utf8 (printString t)
  | .token (.mark c) => [c.toNat.toUInt8]

/-- The token of a piece. -/
def token? : Piece → Option Token
  | .blank _ => none
  | .token t => some t

/-- Whether a piece is what it says. -/
def isSound : Piece → Bool
  | .blank b => isBlank b
  | .token (.word w) => isName w
  | .token (.mark c) => isMark c
  | .token (.number _) | .token (.text _) => true

/-- Whether a piece would run into letters or digits behind it. -/
def isOpen : Piece → Bool
  | .token (.word _) | .token (.number _) => true
  | _ => false

/-- Whether all pieces are what they say, and each one that would run into another is followed by
one that would not. -/
def parted : List Piece → Bool
  | [] => true
  | p :: ps => p.isSound && (!p.isOpen || ps.head?.any (!·.isOpen)) && parted ps

/-- A piece that would not run into another one parts those around it. -/
theorem endsWord {p : Piece} (hp : p.isSound = true) (hclosed : p.isOpen = false) (r : Bytes) :
    EndsWord (p.bytes ++ r) := by
  intro b hb
  cases p with
  | blank c =>
      cases hb
      simp only [isSound, isBlank, Bool.or_eq_true, beq_iff_eq] at hp
      rcases hp with ((rfl | rfl) | rfl) | rfl <;> rfl
  | token t =>
      cases t with
      | word | number => cases hclosed
      | text t =>
          have htext := text_printString t r
          rw [bytes] at hb
          generalize utf8 (printString t) ++ r = s at htext hb
          cases htext with
          | mk => cases hb; rfl
      | mark c =>
          cases hb
          simp only [isSound, isMark, Bool.and_eq_true, Bool.not_eq_true'] at hp
          exact hp.2

end Piece

/-- Pieces are read as their tokens. -/
theorem tokens?_pieces {ps : List Piece} (h : Piece.parted ps = true) (r : Bytes) :
    tokens? (ps.flatMap Piece.bytes ++ r) = (tokens? r).map (ps.filterMap Piece.token? ++ ·) := by
  induction ps with
  | nil => exact Option.map_id'.symm
  | cons p ps ih =>
      simp only [Piece.parted, Bool.and_eq_true, Bool.or_eq_true, Bool.not_eq_true'] at h
      obtain ⟨⟨hp, hnext⟩, hps⟩ := h
      -- A word or a number is followed by a piece that ends it.
      have hend : p.isOpen = true → EndsWord (ps.flatMap Piece.bytes ++ r) := by
        intro hopen
        cases ps with
        | nil => simp [hopen] at hnext
        | cons q ps =>
            rw [Piece.parted, Bool.and_eq_true, Bool.and_eq_true] at hps
            have hclosed : q.isOpen = false := by simpa [hopen] using hnext
            rw [List.flatMap_cons, List.append_assoc]
            exact q.endsWord hps.1.1 hclosed _
      rw [List.flatMap_cons, List.append_assoc]
      have hmore : ∀ t, (tokens? (ps.flatMap Piece.bytes ++ r)).map (t :: ·) =
          (tokens? r).map ((t :: ps.filterMap Piece.token?) ++ ·) := by
        intro t
        rw [ih hps, Option.map_map]
        rfl
      cases p with
      | blank b => exact (tokens?_blank hp _).trans (ih hps)
      | token t =>
          refine Eq.trans ?_ (hmore t)
          cases t with
          | word w => exact tokens?_word hp (hend rfl)
          | number n => exact tokens?_number n (hend rfl)
          | text t => exact tokens?_text t _
          | mark c => exact tokens?_mark hp _

end Lineage.Graph.Cypher

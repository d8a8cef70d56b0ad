import Lineage.Proofs.Audit.Meaning

/-!
# Written events are read back

Every event is a record of its own that `Event.print` writes, so a document of such records with any
blanks between them gives the events in order, and so does a journal with one of them per line
(`readDocument_print`).
-/

namespace Lineage.Audit

open Lineage.Json
open Lineage.Json.Grammar

/-- Events as they are written, with any blanks around them and nothing else. -/
inductive Joined : List Event → Bytes → Prop
  | done {s : Bytes} : Blanks s [] → Joined [] s
  | more {e : Event} {es : List Event} {s r : Bytes} : Blanks s (utf8 e.print ++ r) →
    Joined es r →
    Joined (e :: es) s

/-- Events as they are written, one per line.  The last line may lack its line feed. -/
inductive Lined : List Event → Bytes → Prop
  | done : Lined [] []
  | last (e : Event) : Lined [e] (utf8 e.print)
  | more {e : Event} {es : List Event} {r : Bytes} : Lined es r →
    Lined (e :: es) (utf8 e.print ++ lineFeed :: r)

/-! ## One event -/

theorem entries_map_known (es : List Entry) : entries (es.map .known) = es := by
  induction es with
  | nil => rfl
  | cons entry es ih => rw [List.map_cons, entries_known, ih]

/-- A field has the value of the event if its entry is set or if it had the value before. -/
theorem get_foldl_entries {f : Field} {fields : List Field} {e e₀ : Event}
    (h : f ∈ fields ∨ e₀.get f = e.get f) :
    ((fields.map fun f => (⟨f, e.get f⟩ : Entry)).foldl
      (fun e entry => e.set entry.field entry.value)
      e₀).get f = e.get f := by
  induction fields generalizing e₀ with
  | nil => exact h.resolve_left List.not_mem_nil
  | cons g fields ih =>
      refine ih ?_
      by_cases hfield : f = g
      · subst hfield
        exact .inr (Event.get_set_self _ _ _)
      · rw [List.mem_cons, or_iff_right hfield] at h
        exact h.imp_right (Event.get_set_ne _ _ hfield).trans

/-- The entries of an event give it back. -/
theorem Event.ofEntries?_entries (e : Event) : Event.ofEntries? e.entries = .ok e := by
  have hobserved : observed e.entries = .ofList Field.all := by
    rw [observed, entries, List.map_map]
    rfl
  have hmissing : FieldSet.required.diff (.ofList Field.all) = .empty := by decide
  have hevent : Event.ofEntries e.entries = e :=
    Event.ext_get fun f => get_foldl_entries (.inl f.mem_all)
  rw [Event.ofEntries?, hobserved, hmissing, hevent]
  rfl

/-! ## Documents and lines -/

theorem readEvents_joined {es : List Event} {s : Bytes} (h : Joined es s) :
    readEvents s = .ok es := by
  induction h with
  | done hblanks => exact readEvents_blank hblanks
  | @more e _ _ r hblanks _ ih =>
      rw [readEvents_record hblanks (recordText_print e r), entries_map_known,
        Event.ofEntries?_entries]
      dsimp only
      rw [ih]
      rfl

theorem readDocument_joined {es : List Event} {s : Bytes} (h : Joined es s) :
    readDocument s = .ok es := by
  rw [readDocument, readEvents_joined h]
  rfl

theorem splitLine_lineFeed {s : Bytes} (h : lineFeed ∉ s) (r : Bytes) :
    splitLine (s ++ lineFeed :: r) = (s ++ [lineFeed], r) := by
  have hs : ∀ b ∈ s, (b != lineFeed) = true :=
    fun b hb => bne_iff_ne.mpr (ne_of_mem_of_not_mem hb h)
  rw [splitLine, List.dropWhile_append_of_pos hs, List.takeWhile_append_of_pos hs]
  simp

theorem splitLine_last {s : Bytes} (h : lineFeed ∉ s) : splitLine s = (s, []) := by
  have hs : ∀ b ∈ s, (b != lineFeed) = true :=
    fun b hb => bne_iff_ne.mpr (ne_of_mem_of_not_mem hb h)
  have hdrop : s.dropWhile (· != lineFeed) = [] := by
    have happend : (s ++ []).dropWhile (· != lineFeed) = ([] : Bytes).dropWhile (· != lineFeed) :=
      List.dropWhile_append_of_pos hs
    rwa [List.append_nil] at happend
  rw [splitLine, hdrop]

/-- A line with an event gives the event. -/
theorem itemsFrom_print {e : Event} {s r rest : Bytes}
    (hsplit : splitLine s = (utf8 e.print ++ r, rest)) (hr : Blanks r []) (line : Nat) :
    Source.itemsFrom line ⟨s, none⟩ =
      .ok e :: Source.itemsFrom (line + 1) ⟨rest, none⟩ := by
  obtain ⟨u, hu⟩ := (recordText_print e r).exists_eq
  have hread : readDocument (utf8 e.print ++ r) = .ok [e] :=
    readDocument_joined (.more (.done _) (.done hr))
  have hitems : lineItems (line + 1) (utf8 e.print ++ r) = [.ok e] := by
    rw [lineItems, readLine, hread]
    rfl
  cases s with
  | nil =>
      rw [hu] at hsplit
      cases hsplit
  | cons b s =>
      have hblank : isBlankLine (utf8 e.print ++ r) = false := by
        rw [hu]
        rfl
      rw [Source.itemsFrom_cons line (.inl rfl), hsplit]
      dsimp only
      rw [hblank, hitems]
      rfl

theorem itemsFrom_lined {es : List Event} {s : Bytes} (h : Lined es s) (line : Nat) :
    Source.itemsFrom line ⟨s, none⟩ = es.map .ok := by
  induction h generalizing line with
  | done => exact Source.itemsFrom_nil line none
  | last e =>
      have hsplit : splitLine (utf8 e.print) = (utf8 e.print ++ [], []) := by
        rw [List.append_nil, splitLine_last (lineFeed_not_mem_print e)]
      rw [itemsFrom_print hsplit (.done []), Source.itemsFrom_nil]
      rfl
  | @more e _ r _ ih =>
      have hsplit := splitLine_lineFeed (lineFeed_not_mem_print e) r
      rw [itemsFrom_print hsplit (.more rfl (.done [])), ih]
      rfl

/-- Events that are written and joined are read back, and so are events that are written one per
line. -/
theorem readDocument_print {es : List Event} {s : Bytes} :
    (Joined es s → readDocument s = .ok es) ∧
      (Lined es s → (Reader.new ⟨s, none⟩).toList.1 = es.map .ok) := by
  refine ⟨readDocument_joined, fun h => ?_⟩
  rw [Reader.toList_new, Source.items_eq, itemsFrom_lined h]

/-- The largest numbers and a text that has to be escaped, twice. -/
theorem readDocument_print_twice :
    let e : Event := { event := "\n\"é\\", time := 0xffffffffffffffff, pid := 0xffffffff }
    readDocument (utf8 e.print ++ 0x09 :: (utf8 e.print ++ [])) = .ok [e, e] ∧
      (Reader.new ⟨utf8 e.print ++ lineFeed :: utf8 e.print, none⟩).toList.1 =
        [.ok e, .ok e] := by
  intro e
  have hjoined : Joined [e, e] (utf8 e.print ++ 0x09 :: (utf8 e.print ++ [])) :=
    .more (.done _) (.more (.more rfl (.done _)) (.done (.done [])))
  exact ⟨readDocument_print.1 hjoined, readDocument_print.2 (.more (.last e))⟩

end Lineage.Audit

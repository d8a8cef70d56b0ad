import Lineage.RingBuffer.Machine
import Mathlib.Data.List.Induction

/-!
# The ledger of a run

The marks of a run say what has happened to every position of a ring buffer.  `ledger` adds them up:
which positions each producer has claimed and not published, what was stored last for a position and
by whom, which position each consumer is after, and which items are gone.

`Ledger.Admits` is the discipline that a ring buffer owes its callers.  It says of a mark what the
marks before it must be like.  Nobody claims a position twice.  A producer stores only for positions
of its claim, and not before the slot has been emptied of all earlier laps.  A consumer takes and
returns the item that the producer of its position stored last, and each position is returned once.
-/

namespace Lineage.RingBuffer

variable {α : Type}

/-- What the marks of a run come to. -/
structure Ledger (α : Type) where
  /-- Of each producer, the first position and the number of positions it has claimed and not
  published. -/
  claim : Nat → Option (Nat × Nat) := fun _ => none
  /-- Of each position, the producer that claimed it. -/
  owner : Nat → Option Nat := fun _ => none
  /-- Of each position, the producer that stored last for it, and the item. -/
  stored : Nat → Option (Nat × α) := fun _ => none
  /-- Of each consumer, the position it has claimed and not returned. -/
  want : Nat → Option Nat := fun _ => none
  /-- Of each position, the consumer that claimed it. -/
  taker : Nat → Option Nat := fun _ => none
  /-- Of each position, whether its item was taken out of the slot. -/
  taken : Nat → Bool := fun _ => false
  /-- Of each position, whether its item was returned. -/
  returned : Nat → Bool := fun _ => false

namespace Ledger

/-- The ledger with one more mark. -/
def add (l : Ledger α) : Mark α → Ledger α
  | .silent => l
  | .claimed id base count =>
      { l with
        claim := fun j => if j = id then some (base, count) else l.claim j
        owner := fun k => if base ≤ k ∧ k < base + count then some id else l.owner k }
  | .stored id position item =>
      { l with stored := fun k => if k = position then some (id, item) else l.stored k }
  | .published id => { l with claim := fun j => if j = id then none else l.claim j }
  | .wanted id position =>
      { l with
        want := fun j => if j = id then some position else l.want j
        taker := fun k => if k = position then some id else l.taker k }
  | .took _ position _ => { l with taken := fun k => if k = position then true else l.taken k }
  | .returned id position _ =>
      { l with
        want := fun j => if j = id then none else l.want j
        returned := fun k => if k = position then true else l.returned k }

/-- The item of a position is the one that its producer stored last for it. -/
def Holds (l : Ledger α) (position : Nat) (item : Option α) : Prop :=
  ∃ id a, item = some a ∧ l.owner position = some id ∧ l.stored position = some (id, a)

/-- No claim under way covers a position. -/
def Published (l : Ledger α) (position : Nat) : Prop :=
  ∀ {id base count : Nat}, l.claim id = some (base, count) →
    ¬ (base ≤ position ∧ position < base + count)

/-- Whether a mark may follow the marks of a ledger, in a ring buffer with `capacity` slots. -/
def Admits (capacity : Nat) (l : Ledger α) : Mark α → Prop
  | .silent => True
  -- Every position is claimed once, and a producer has one claim at a time.
  | .claimed id base count =>
      l.claim id = none ∧ ∀ k, base ≤ k → k < base + count → l.owner k = none
  -- The producer's own claim covers the position, and the slot's earlier items were taken.
  | .stored id position _ =>
      (∃ base count, l.claim id = some (base, count) ∧ base ≤ position ∧
        position < base + count) ∧
        ∀ k, k < position → k % capacity = position % capacity → l.taken k = true
  -- Nothing is published that lacks its item.
  | .published id =>
      ∀ base count, l.claim id = some (base, count) →
        ∀ k, base ≤ k → k < base + count → ∃ a, l.Holds k (some a)
  | .wanted id position => l.want id = none ∧ l.taker position = none
  -- The consumer's own position, whose producer has published it.
  | .took id position item =>
      l.want id = some position ∧ l.taken position = false ∧ l.Published position ∧
        l.Holds position item
  | .returned id position item =>
      l.want id = some position ∧ l.returned position = false ∧ l.Holds position item

/-! ## What a mark leaves behind -/

section Add

variable {l : Ledger α} {id base count position : Nat}

/-- A claim is the new one or one of another producer. -/
theorem claim_of_claimed {j b c : Nat}
    (h : (l.add (.claimed id base count)).claim j = some (b, c)) :
    (j = id ∧ b = base ∧ c = count) ∨ (j ≠ id ∧ l.claim j = some (b, c)) := by
  simp only [add] at h
  split at h
  next same =>
    cases h
    exact .inl ⟨same, rfl, rfl⟩
  next other => exact .inr ⟨other, h⟩

theorem claim_of_published {j b c : Nat}
    (h : (l.add (.published id)).claim j = some (b, c)) : j ≠ id ∧ l.claim j = some (b, c) := by
  simp only [add] at h
  split at h
  next => cases h
  next other => exact ⟨other, h⟩

/-- A want is the new one or one of another consumer. -/
theorem want_of_wanted {j k : Nat} (h : (l.add (.wanted id position)).want j = some k) :
    (j = id ∧ k = position) ∨ (j ≠ id ∧ l.want j = some k) := by
  simp only [add] at h
  split at h
  next same =>
    cases h
    exact .inl ⟨same, rfl⟩
  next other => exact .inr ⟨other, h⟩

theorem want_of_returned {item : Option α} {j k : Nat}
    (h : (l.add (.returned id position item)).want j = some k) :
    j ≠ id ∧ l.want j = some k := by
  simp only [add] at h
  split at h
  next => cases h
  next other => exact ⟨other, h⟩

theorem returned_of_returned {item : Option α} {k : Nat}
    (h : (l.add (.returned id position item)).returned k = true) :
    k = position ∨ l.returned k = true := by
  simp only [add] at h
  split at h
  next same => exact .inl same
  next => exact .inr h

/-- What is stored for a position is the new item, or the position is another one. -/
theorem stored_of_stored {item : α} {k : Nat} {x : Nat × α}
    (h : (l.add (.stored id position item)).stored k = some x) :
    (k = position ∧ x = (id, item)) ∨ (k ≠ position ∧ l.stored k = some x) := by
  simp only [add] at h
  split at h
  next same =>
    cases h
    exact .inl ⟨same, rfl⟩
  next other => exact .inr ⟨other, h⟩

theorem taken_of_took {item : Option α} {k : Nat}
    (h : (l.add (.took id position item)).taken k = true) :
    k = position ∨ l.taken k = true := by
  simp only [add] at h
  split at h
  next same => exact .inl same
  next => exact .inr h

theorem taken_took_of_taken {item : Option α} {k : Nat} (h : l.taken k = true) :
    (l.add (.took id position item)).taken k = true := by
  simp [add, h]

end Add

end Ledger

/-- The ledger of some marks. -/
def ledger (marks : List (Mark α)) : Ledger α := marks.foldl Ledger.add {}

@[simp] theorem ledger_nil : ledger ([] : List (Mark α)) = {} := rfl

@[simp] theorem ledger_snoc (marks : List (Mark α)) (mark : Mark α) :
    ledger (marks ++ [mark]) = (ledger marks).add mark := by
  simp [ledger]

/-- What holds of every step of a list, with the steps before it, and of one more step. -/
theorem forall_split_snoc {β : Type} {P : List β → β → Prop} {xs : List β} {x : β}
    (h : ∀ before y after, xs = before ++ y :: after → P before y) (hx : P xs x) :
    ∀ before y after, xs ++ [x] = before ++ y :: after → P before y := by
  intro before y after heq
  rcases List.eq_nil_or_concat after with rfl | ⟨after', last, rfl⟩
  · obtain ⟨rfl, hlast⟩ := List.append_inj' heq rfl
    cases hlast
    exact hx
  · rw [List.concat_eq_append, ← List.cons_append, ← List.append_assoc] at heq
    obtain ⟨rfl, _⟩ := List.append_inj' heq rfl
    exact h before y after' rfl

/-- Every mark is admitted by the ledger of the marks before it. -/
def Lawful (capacity : Nat) (marks : List (Mark α)) : Prop :=
  ∀ before mark after, marks = before ++ mark :: after → (ledger before).Admits capacity mark

theorem lawful_nil (capacity : Nat) : Lawful capacity ([] : List (Mark α)) := by
  intro before mark after h
  cases before <;> cases h

theorem Lawful.snoc {capacity : Nat} {marks : List (Mark α)} {mark : Mark α}
    (h : Lawful capacity marks) (hmark : (ledger marks).Admits capacity mark) :
    Lawful capacity (marks ++ [mark]) :=
  forall_split_snoc h hmark

theorem Lawful.init {capacity : Nat} {marks : List (Mark α)} {mark : Mark α}
    (h : Lawful capacity (marks ++ [mark])) :
    Lawful capacity marks ∧ (ledger marks).Admits capacity mark := by
  refine ⟨fun before mark' after heq => ?_, h marks mark [] rfl⟩
  exact h before mark' (after ++ [mark]) (by rw [heq, List.append_assoc, List.cons_append])

/-! ## What is returned -/

/-- The position whose item a step returns. -/
def Mark.returnedPosition : Mark α → Option Nat
  | .returned _ position _ => some position
  | _ => none

/-- The positions whose items were returned, in order. -/
def returnedPositions (marks : List (Mark α)) : List Nat := marks.filterMap Mark.returnedPosition

theorem returnedPositions_snoc (marks : List (Mark α)) (mark : Mark α) :
    returnedPositions (marks ++ [mark]) =
      returnedPositions marks ++ mark.returnedPosition.toList := by
  cases h : mark.returnedPosition <;> simp [returnedPositions, h]

theorem mem_returnedPositions {marks : List (Mark α)} {k : Nat} :
    k ∈ returnedPositions marks ↔ (ledger marks).returned k = true := by
  induction marks using List.reverseRecOn with
  | nil => simp [returnedPositions]
  | append_singleton marks mark ih =>
      rw [ledger_snoc, returnedPositions_snoc, List.mem_append, ih]
      cases mark with
      | returned id position item =>
          by_cases hk : k = position <;> simp [Mark.returnedPosition, Ledger.add, hk]
      | _ => simp [Mark.returnedPosition, Ledger.add]

/-- The discipline lets no position be returned twice. -/
theorem Lawful.nodup_returnedPositions {capacity : Nat} {marks : List (Mark α)}
    (h : Lawful capacity marks) : (returnedPositions marks).Nodup := by
  induction marks using List.reverseRecOn with
  | nil => exact List.nodup_nil
  | append_singleton marks mark ih =>
      obtain ⟨hinit, hmark⟩ := h.init
      rw [returnedPositions_snoc]
      cases mark with
      | returned id position item =>
          refine List.nodup_append.mpr ⟨ih hinit, by simp [Mark.returnedPosition], ?_⟩
          intro k hk k' hk' heq
          obtain rfl : k' = position := by simpa [Mark.returnedPosition] using hk'
          subst heq
          have hreturned := mem_returnedPositions.mp hk
          rw [hmark.2.1] at hreturned
          cases hreturned
      | _ => simpa [Mark.returnedPosition] using ih hinit

end Lineage.RingBuffer

import Lineage.Proofs.RingBuffer.Transcript

/-!
# Reservations as callers know them

A *diary* is what can be known of reservations from a transcript: which producer has reserved which
positions, what it has filled in last at each offset, and what it handed over when it released them.
Only the arguments and outcomes of calls and the positions that are claimed and returned enter it,
and nothing of the ring buffer's state.

`Diary.Admits` says what a step of a transcript must be like after the diary of the steps before it.
A fill tells whether its offset was reserved.  A release succeeds if every offset was filled, and
only then.  No item of an open reservation or from beyond it is returned.  A position that was
released gives the item that was filled in last.
-/

namespace Lineage.RingBuffer

variable {α : Type}

/-- An open reservation. -/
structure Reservation (α : Type) where
  /-- Its first position. -/
  base : Nat
  /-- The number of its positions. -/
  count : Nat
  /-- What was filled in last at each offset. -/
  fills : Nat → Option α := fun _ => none

namespace Reservation

/-- The reservation when an item was filled in. -/
def fill (res : Reservation α) (offset : Nat) (item : α) : Reservation α :=
  { res with fills := fun k => if k = offset then some item else res.fills k }

/-- Something was filled in at every offset. -/
def IsComplete (res : Reservation α) : Prop := ∀ k, k < res.count → (res.fills k).isSome = true

instance (res : Reservation α) : Decidable res.IsComplete :=
  inferInstanceAs (Decidable (∀ k, k < res.count → (res.fills k).isSome = true))

/-- The number of offsets at which something was filled in. -/
def filledCount (res : Reservation α) : Nat :=
  (List.range res.count).countP fun k => (res.fills k).isSome

end Reservation

/-- What is known of reservations. -/
structure Diary (α : Type) where
  /-- Of each producer, what it has asked for last. -/
  call : Nat → Option (ProducerCall α) := fun _ => none
  /-- Of each producer, its open reservation. -/
  reservation : Nat → Option (Reservation α) := fun _ => none
  /-- Of each position, the item it had when it was released. -/
  handed : Nat → Option α := fun _ => none

namespace Diary

/-- The diary with another reservation of one producer. -/
def setReservation (d : Diary α) (id : Nat) (res : Option (Reservation α)) : Diary α :=
  { d with reservation := fun j => if j = id then res else d.reservation j }

@[simp] theorem reservation_setReservation_self (d : Diary α) (id : Nat)
    (res : Option (Reservation α)) :
    (d.setReservation id res).reservation id = res := if_pos rfl

theorem reservation_setReservation_ne (d : Diary α) {id j : Nat} (h : j ≠ id)
    (res : Option (Reservation α)) : (d.setReservation id res).reservation j = d.reservation j :=
  if_neg h

/-- The diary when a producer has released what it reserved. -/
def close (d : Diary α) (id : Nat) : Diary α :=
  match d.reservation id with
  | none => d
  | some res =>
    { d.setReservation id none with
      handed := fun k =>
        if res.base ≤ k ∧ k < res.base + res.count then
          res.fills (k - res.base)
        else d.handed k }

@[simp] theorem reservation_close_self (d : Diary α) (id : Nat) :
    (d.close id).reservation id = none := by
  unfold close
  cases h : d.reservation id with
  | none => exact h
  | some res => exact if_pos rfl

theorem reservation_close_ne (d : Diary α) {id j : Nat} (h : j ≠ id) :
    (d.close id).reservation j = d.reservation j := by
  unfold close
  cases d.reservation id with
  | none => rfl
  | some res => exact if_neg h

/-- Writes down what a step does to the positions: a claim for a reservation opens it. -/
def note (d : Diary α) : Mark α → Diary α
  | .claimed id base _ =>
    match d.call id with
    | some (.reserve count) => d.setReservation id (some { base := base, count := count })
    | _ => d
  | _ => d

/-- Writes down what is said. -/
def hear (d : Diary α) : Word α → Diary α
  | .asks id call => { d with call := fun j => if j = id then some call else d.call j }
  | .ends ⟨.producer, id⟩ outcome =>
    match d.call id, outcome with
    | some (.fill item offset), .filled true =>
      d.setReservation id ((d.reservation id).map fun res => res.fill offset item)
    | some .release, .done => d.close id
    | _, _ => d
  | _ => d

@[simp] theorem call_note (d : Diary α) (mark : Mark α) : (d.note mark).call = d.call := by
  cases mark with
  | claimed id base count =>
      simp only [note]
      split <;> rfl
  | _ => rfl

@[simp] theorem handed_note (d : Diary α) (mark : Mark α) : (d.note mark).handed = d.handed := by
  cases mark with
  | claimed id base count =>
      simp only [note]
      split <;> rfl
  | _ => rfl

theorem reservation_note_ne (d : Diary α) {id j : Nat} (h : j ≠ id) (base count : Nat) :
    (d.note (.claimed id base count)).reservation j = d.reservation j := by
  simp only [note]
  split
  · exact d.reservation_setReservation_ne h _
  · rfl

@[simp] theorem call_hear_ends (d : Diary α) (role : Role) (o : Outcome α) :
    (d.hear (.ends role o)).call = d.call := by
  obtain ⟨side, id⟩ := role
  cases side with
  | consumer => rfl
  | producer =>
      simp only [hear]
      split
      · rfl
      · unfold close
        split <;> rfl
      · rfl

theorem reservation_hear_ends_ne (d : Diary α) {id j : Nat} (h : j ≠ id) (o : Outcome α) :
    (d.hear (.ends ⟨.producer, id⟩ o)).reservation j = d.reservation j := by
  simp only [hear]
  split
  · exact d.reservation_setReservation_ne h _
  · exact d.reservation_close_ne h
  · rfl

/-- A fill that succeeds is what was filled in last at its offset. -/
theorem reservation_hear_filled {d : Diary α} {id offset : Nat} {item : α}
    (h : d.call id = some (.fill item offset)) :
    (d.hear (.ends ⟨.producer, id⟩ (.filled true))).reservation id =
      (d.reservation id).map fun res => res.fill offset item := by
  simp only [hear, h, reservation_setReservation_self]

/-- An item that was handed over was so before, or a release hands it over. -/
theorem handed_hear_ends {d : Diary α} {id k : Nat} {o : Outcome α} {a : α}
    (h : (d.hear (.ends ⟨.producer, id⟩ o)).handed k = some a) :
    d.handed k = some a ∨ d.call id = some .release ∧ o = .done ∧
      ∃ res, d.reservation id = some res ∧
      res.base ≤ k ∧ k < res.base + res.count ∧ res.fills (k - res.base) = some a := by
  simp only [hear] at h
  split at h
  next => exact .inl h
  next hcall =>
    unfold close at h
    split at h
    next => exact .inl h
    next res hres =>
      by_cases hk : res.base ≤ k ∧ k < res.base + res.count
      · simp only [if_pos hk] at h
        exact .inr ⟨hcall, rfl, res, hres, hk.1, hk.2, h⟩
      · simp only [if_neg hk] at h
        exact .inl h
  next => exact .inl h

/-- The diary with one more step. -/
def add (d : Diary α) (entry : Mark α × Word α) : Diary α := (d.note entry.1).hear entry.2

/-- The number of positions that a producer has reserved. -/
def reservedCount (d : Diary α) (id : Nat) : Nat := (d.reservation id).elim 0 Reservation.count

/-- Whether a call of a producer may end in a way.  Of pushes and reserves nothing is asked. -/
def Answers (d : Diary α) (id : Nat) : ProducerCall α → Outcome α → Prop
  | .fill _ offset, o => o = .filled (decide (offset < d.reservedCount id))
  | .release, o => ∀ res, d.reservation id = some res →
      o = if res.IsComplete then .done else .misuse (.releaseUnfilled id res.filledCount res.count)
  | _, _ => True

/-- Whether a step may do something to the positions. -/
def AdmitsMark (d : Diary α) (word : Word α) : Mark α → Prop
  -- A producer claims as many positions as it has asked for.
  | .claimed id _ count =>
      (∃ item, d.call id = some (.push item) ∧ count = 1) ∨ d.call id = some (.reserve count)
  -- An item is the outcome of the pop, comes from before all open reservations, and is the last one
  -- that was filled in if its position was reserved.
  | .returned id position item =>
      (∀ j res, d.reservation j = some res → position < res.base) ∧
        ∃ a, item = some a ∧ word = .ends ⟨.consumer, id⟩ (.item a) ∧
          ∀ b, d.handed position = some b → a = b
  | _ => True

/-- Whether something may be said at a step. -/
def AdmitsWord (d : Diary α) : Word α → Prop
  | .ends ⟨.producer, id⟩ outcome =>
      ∃ call, d.call id = some call ∧ d.Answers id call outcome
  | _ => True

/-- Whether a step may follow those of a diary. -/
def Admits (d : Diary α) (entry : Mark α × Word α) : Prop :=
  d.AdmitsMark entry.2 entry.1 ∧ d.AdmitsWord entry.2

end Diary

/-- The diary of some steps. -/
def diary (entries : List (Mark α × Word α)) : Diary α := entries.foldl Diary.add {}

@[simp] theorem diary_snoc (entries : List (Mark α × Word α)) (entry : Mark α × Word α) :
    diary (entries ++ [entry]) = (diary entries).add entry := by
  simp [diary]

end Lineage.RingBuffer

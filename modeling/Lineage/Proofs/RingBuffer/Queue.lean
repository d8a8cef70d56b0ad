import Lineage.Proofs.RingBuffer.Alone

/-!
# A ring buffer as a queue

When its calls come one after the other, a ring buffer is a queue of places, oldest first.  A place
has an item that nobody has taken, or is reserved and perhaps filled.  `Queue.perform` says what a
call does to the queue: a producer waits when there are not enough places left, and a consumer when
the oldest place has no item to take.  There are no positions, cursors, laps or kept bounds in it.

`Queue.replay` and `replay` say what becomes of a list of calls on the queue and on the ring buffer.
That they are the same is shown in `RingBuffer/Simulation`.
-/

namespace Lineage.RingBuffer

/-! ## The queue -/

/-- A place of a queue. -/
inductive Place (α : Type) where
  /-- It has an item. -/
  | full (item : α)
  /-- A producer has reserved it, and has perhaps filled it. -/
  | kept (id offset : Nat) (item : Option α)
  deriving DecidableEq, Repr

/-- Bounded queues.  The first place is the oldest. -/
structure Queue (α : Type) where
  /-- The greatest number of places. -/
  capacity : Nat
  /-- The places. -/
  places : List (Place α) := []

/-- A call, with the role that makes it. -/
inductive Request (α : Type) (producers consumers : Nat) where
  /-- A call of a producer. -/
  | produce (id : Fin producers) (call : ProducerCall α)
  /-- A call of a consumer. -/
  | consume (id : Fin consumers)

variable {α : Type} {producers consumers : Nat}

namespace Place

/-- The item in a place. -/
def item : Place α → Option α
  | full a => some a
  | kept _ _ item => item

/-- A producer has reserved the place. -/
def isKept (id : Nat) : Place α → Bool
  | full _ => false
  | kept j _ _ => j == id

/-- A producer has reserved the place and filled it. -/
def isFilled (id : Nat) (place : Place α) : Bool := place.item.isSome && place.isKept id

/-- The place when a producer has filled what it reserved at an offset. -/
def fill (id offset : Nat) (a : α) : Place α → Place α
  | full b => full b
  | kept j k item => if j = id ∧ k = offset then kept j k (some a) else kept j k item

/-- The place when a producer has given up what it reserved and filled. -/
def release (id : Nat) : Place α → Place α
  | full b => full b
  | kept j k (some a) => if j = id then full a else kept j k (some a)
  | kept j k none => kept j k none

end Place

/-- The places that a producer claims. -/
def Claim.places (id : Nat) : Claim α → List (Place α)
  | .push item => [.full item]
  | .reserve count => (List.range count).map fun k => .kept id k none

/-- The number of places that a call asks for. -/
def Request.size : Request α producers consumers → Nat
  | .produce _ (.push _) => 1
  | .produce _ (.reserve count) => count
  | _ => 0

/-- The number of positions that some calls claim at most. -/
def Request.total : List (Request α producers consumers) → Nat
  | [] => 0
  | request :: requests => request.size + total requests

namespace Queue

/-- The number of places that a producer has reserved. -/
def reserved (q : Queue α) (id : Nat) : Nat := q.places.countP (Place.isKept id)

/-- The number of them that it has filled. -/
def filled (q : Queue α) (id : Nat) : Nat := q.places.countP (Place.isFilled id)

theorem filled_le_reserved (q : Queue α) (id : Nat) : q.filled id ≤ q.reserved id :=
  List.countP_mono_left fun _ _ h => (Bool.and_eq_true_iff.mp h).2

/-- What is wrong with a claim, if anything is. -/
def checkClaim (q : Queue α) (id : Nat) : Claim α → Except Misuse Unit
  | .push _ => if q.reserved id ≠ 0 then .error (.pushWhileReserved id) else .ok ()
  | .reserve count =>
    if count = 0 then .error .reserveNothing
    else if q.capacity < count then .error (.reserveTooMany count q.capacity)
    else if q.reserved id ≠ 0 then .error (.reserveAgain id)
    else .ok ()

/-- Only a producer without a reservation may claim, and at least one place. -/
theorem checkClaim_ok {q : Queue α} {id : Nat} {c : Claim α} (h : q.checkClaim id c = .ok ()) :
    q.reserved id = 0 ∧ 0 < c.size := by
  cases c with
  | push item =>
      simp only [checkClaim] at h
      split at h
      · cases h
      · rename_i hreserved
        exact ⟨Decidable.not_not.mp hreserved, Nat.one_pos⟩
  | reserve count =>
      simp only [checkClaim] at h
      split at h
      · cases h
      · rename_i hpos
        split at h
        · cases h
        · split at h
          · cases h
          · rename_i hreserved
            exact ⟨Decidable.not_not.mp hreserved, Nat.pos_of_ne_zero hpos⟩

/-- A producer claims places.  There is no answer while there are not enough left. -/
def claim (q : Queue α) (id : Nat) (c : Claim α) : Option (Queue α × Outcome α) :=
  match q.checkClaim id c with
  | .error m => some (q, .misuse m)
  | .ok () =>
    if q.places.length + c.size ≤ q.capacity then
      some ({ q with places := q.places ++ c.places id }, .done)
    else none

/-- A producer fills a place that it has reserved. -/
def fill (q : Queue α) (id : Nat) (item : α) (offset : Nat) : Queue α × Outcome α :=
  if offset < q.reserved id then
    ({ q with places := q.places.map (Place.fill id offset item) }, .filled true)
  else (q, .filled false)

/-- A producer gives up the places that it has reserved, which have to be filled. -/
def release (q : Queue α) (id : Nat) : Queue α × Outcome α :=
  if q.filled id ≠ q.reserved id then
    (q, .misuse (.releaseUnfilled id (q.filled id) (q.reserved id)))
  else ({ q with places := q.places.map (Place.release id) }, .done)

/-- A consumer takes the item of the oldest place.  There is no answer while it has none to take. -/
def pop (q : Queue α) : Option (Queue α × Outcome α) :=
  match q.places with
  | .full a :: rest => some ({ q with places := rest }, .item a)
  | _ => none

/-- Answers a call, unless it has to wait. -/
def perform (q : Queue α) : Request α producers consumers → Option (Queue α × Outcome α)
  | .produce id (.push item) => q.claim id (.push item)
  | .produce id (.reserve count) => q.claim id (.reserve count)
  | .produce id (.fill item offset) => some (q.fill id item offset)
  | .produce id .release => some (q.release id)
  | .consume _ => q.pop

end Queue

/-! ## Calls one after the other -/

/-- What becomes of a call. -/
inductive Reply (α : Type) where
  /-- It ends, and leaves so many places. -/
  | answered (outcome : Outcome α) (size : Nat)
  /-- It waits for ever. -/
  | blocked
  deriving DecidableEq, Repr

/-- What becomes of calls, up to the first that waits for ever. -/
def Queue.replay (q : Queue α) : List (Request α producers consumers) → List (Reply α)
  | [] => []
  | request :: requests =>
    match q.perform request with
    | none => [.blocked]
    | some (q, o) => .answered o q.places.length :: q.replay requests

/-- Runs a call alone, if it ends. -/
def perform (r : RingBuffer α) :
    Request α producers consumers → Option (RingBuffer α × Outcome α)
  | .produce id call => r.produce id call
  | .consume id => r.consume id

/-- What becomes of calls, each run alone, up to the first that waits for ever. -/
def replay (r : RingBuffer α) : List (Request α producers consumers) → List (Reply α)
  | [] => []
  | request :: requests =>
    match r.perform request with
    | none => [.blocked]
    | some (r, o) => .answered o r.size :: r.replay requests

/-- The ring buffer after some calls, if all of them end. -/
def performAll (r : RingBuffer α) (requests : List (Request α producers consumers)) :
    Option (RingBuffer α) :=
  requests.foldlM (fun r request => (r.perform request).map Prod.fst) r

/-- A call that runs alone never ends, however many steps it takes. -/
def NeverEnds (r : RingBuffer α) : Request α producers consumers → Prop
  | .produce id call => Waits (runProducer id) r call.start
  | .consume id => Waits (runConsumer id) r .readTail

/-! ## Places -/

section Places

variable {places : List (Place α)} {id offset i : Nat}

@[simp] theorem length_places (c : Claim α) (id : Nat) : (c.places id).length = c.size := by
  cases c <;> simp [Claim.places, Claim.size]

/-- What a producer claims is not filled yet. -/
theorem countP_isFilled_places (c : Claim α) (id j : Nat) :
    (c.places id).countP (Place.isFilled j) = 0 := by
  rw [List.countP_eq_zero]
  intro place hplace
  cases c with
  | push item =>
      obtain rfl := List.mem_singleton.mp hplace
      simp [Place.isFilled, Place.isKept]
  | reserve count =>
      obtain ⟨k, -, rfl⟩ := List.mem_map.mp hplace
      simp [Place.isFilled, Place.item]

theorem countP_isKept_push (item : α) (id : Nat) :
    ((Claim.push item).places id).countP (Place.isKept id) = 0 := rfl

theorem countP_isKept_reserve (count id : Nat) :
    ((Claim.reserve count : Claim α).places id).countP (Place.isKept id) = count := by
  unfold Claim.places
  rw [List.countP_map]
  refine (List.countP_eq_length.mpr fun k _ => ?_).trans List.length_range
  simp [Place.isKept]

theorem countP_isKept_places_ne (c : Claim α) {j : Nat} (h : j ≠ id) :
    (c.places id).countP (Place.isKept j) = 0 := by
  rw [List.countP_eq_zero]
  intro place hplace
  cases c with
  | push item =>
      obtain rfl := List.mem_singleton.mp hplace
      simp [Place.isKept]
  | reserve count =>
      obtain ⟨k, -, rfl⟩ := List.mem_map.mp hplace
      simp [Place.isKept, Ne.symm h]

/-- A place of a claim that is reserved has the number of its offset. -/
theorem kept_places {c : Claim α} {j k : Nat} {x : Option α}
    (h : (c.places id)[i]? = some (.kept j k x)) :
    j = id ∧ k = i ∧ i < (c.places id).countP (Place.isKept id) := by
  cases c with
  | push item => cases i <;> cases h
  | reserve count =>
      rw [countP_isKept_reserve]
      rw [Claim.places, List.getElem?_map, Option.map_eq_some_iff] at h
      obtain ⟨m, hm, hplace⟩ := h
      obtain ⟨hlt, hget⟩ := List.getElem?_eq_some_iff.mp hm
      rw [List.getElem_range] at hget
      rw [List.length_range] at hlt
      cases hplace
      exact ⟨rfl, hget.symm, hlt⟩

theorem exists_kept_places {c : Claim α} (h : i < (c.places id).countP (Place.isKept id)) :
    (c.places id)[i]? = some (.kept id i none) := by
  cases c with
  | push item =>
      rw [countP_isKept_push] at h
      cases h
  | reserve count =>
      rw [countP_isKept_reserve] at h
      rw [Claim.places, List.getElem?_map, List.getElem?_range h]
      rfl

/-- A reserved place of a queue with a claim is one that the queue had or one of the claim. -/
theorem kept_of_append {c : Claim α} {j k : Nat} {x : Option α}
    (h : (places ++ c.places id)[i]? = some (.kept j k x)) :
    places[i]? = some (.kept j k x) ∨
      j = id ∧ i = places.length + k ∧ k < (c.places id).countP (Place.isKept id) := by
  rw [List.getElem?_append] at h
  split at h
  next => exact .inl h
  next hge =>
    obtain ⟨rfl, rfl, hlt⟩ := kept_places h
    exact .inr ⟨rfl, (Nat.add_sub_cancel' (Nat.le_of_not_lt hge)).symm, hlt⟩

/-- A producer has filled all places that it has reserved when their numbers are the same. -/
theorem isSome_item_of_countP_eq
    (h : places.countP (Place.isFilled id) = places.countP (Place.isKept id)) {place : Place α}
    (hmem : place ∈ places) (hkept : place.isKept id = true) : place.item.isSome = true := by
  rw [show Place.isFilled id = fun place : Place α => place.item.isSome &&
    place.isKept id from rfl, ← List.countP_filter,
      List.countP_eq_length_filter (p := Place.isKept id)] at h
  exact List.countP_eq_length.mp h place (List.mem_filter.mpr ⟨hmem, hkept⟩)

/-- Filling changes the one place that was reserved at the offset. -/
theorem map_fill_eq_set {item : Option α} (hplace : places[i]? = some (.kept id offset item))
    (hone : ∀ j x, places[j]? = some (.kept id offset x) → j = i) (a : α) :
    places.map (Place.fill id offset a) = places.set i (.kept id offset (some a)) := by
  refine List.ext_getElem? fun j => ?_
  rw [List.getElem?_map, List.getElem?_set]
  by_cases hj : i = j
  · subst hj
    obtain ⟨hlt, hget⟩ := List.getElem?_eq_some_iff.mp hplace
    simp [hget, hlt, Place.fill]
  · rw [if_neg hj]
    cases hother : places[j]? with
    | none => rfl
    | some place =>
        cases place with
        | full b => rfl
        | kept j' k x =>
            have hne : ¬ (j' = id ∧ k = offset) := by
              rintro ⟨rfl, rfl⟩
              exact hj (hone j x hother).symm
            simp [Place.fill, hne]

/-- A place that is filled has the owner and the offset that it had. -/
theorem kept_of_set {x item : Option α} (hplace : places[i]? = some (.kept id offset x))
    {j j' k : Nat} {y : Option α}
    (h : (places.set i (.kept id offset item))[j]? = some (.kept j' k y)) :
    ∃ y', places[j]? = some (.kept j' k y') := by
  rw [List.getElem?_set] at h
  split at h
  next hij =>
    subst hij
    split at h <;> cases h
    exact ⟨x, hplace⟩
  next => exact ⟨y, h⟩

/-- Another place that is counted alike does not change a number of places. -/
theorem countP_set_of_eq {p : Place α → Bool} {place other : Place α}
    (hplace : places[i]? = some place) (hp : p other = p place) :
    (places.set i other).countP p = places.countP p := by
  obtain ⟨hi, hget⟩ := List.getElem?_eq_some_iff.mp hplace
  have hone : p place = true → 0 < places.countP p :=
    fun hplace' => List.countP_pos_iff.mpr ⟨_, List.getElem_mem hi, hget ▸ hplace'⟩
  rw [List.countP_set hi, hp, hget]
  split
  next hi' => have hpos := hone hi'; omega
  next => omega

/-- A place that is reserved after a release was so before, and by another producer if all places of
the releasing one were filled. -/
theorem kept_of_release {j k : Nat} {x : Option α} {place : Place α}
    (hfilled : place.isKept id = true → place.item.isSome = true)
    (h : place.release id = .kept j k x) : place = .kept j k x ∧ j ≠ id := by
  cases place with
  | full b => cases h
  | kept j' k' x' =>
      cases x' with
      | none =>
          cases h
          refine ⟨rfl, fun heq => ?_⟩
          have hsome := hfilled (by simp [Place.isKept, heq])
          cases hsome
      | some a =>
          by_cases heq : j' = id
          · simp [Place.release, heq] at h
          · simp only [Place.release, if_neg heq] at h
            cases h
            exact ⟨rfl, heq⟩

@[simp] theorem item_release (id : Nat) (place : Place α) :
    (place.release id).item = place.item := by
  cases place with
  | full b => rfl
  | kept j k x =>
      cases x with
      | none => rfl
      | some a =>
          by_cases h : j = id <;> simp [Place.release, Place.item, h]

/-- A release is not noticed by the other producers. -/
theorem isKept_release_ne {j : Nat} (h : j ≠ id) (place : Place α) :
    (place.release id).isKept j = place.isKept j := by
  cases place with
  | full b => rfl
  | kept j' k x =>
      cases x with
      | none => rfl
      | some a =>
          by_cases heq : j' = id
          · simp [Place.release, Place.isKept, heq, Ne.symm h]
          · simp [Place.release, heq]

/-- After a release, places are reserved that were so before, and by other producers. -/
theorem kept_of_map_release
    (hfilled : places.countP (Place.isFilled id) = places.countP (Place.isKept id)) {j k : Nat}
    {x : Option α} (h : (places.map (Place.release id))[i]? = some (.kept j k x)) :
    places[i]? = some (.kept j k x) ∧ j ≠ id := by
  rw [List.getElem?_map, Option.map_eq_some_iff] at h
  obtain ⟨place, hplace, hrelease⟩ := h
  obtain ⟨rfl, hne⟩ :=
    kept_of_release (isSome_item_of_countP_eq hfilled (List.mem_of_getElem? hplace)) hrelease
  exact ⟨hplace, hne⟩

theorem countP_isKept_map_release
    (hfilled : places.countP (Place.isFilled id) = places.countP (Place.isKept id)) :
    (places.map (Place.release id)).countP (Place.isKept id) = 0 := by
  refine List.countP_eq_zero.mpr fun place hmem hkept => ?_
  obtain ⟨i, hplace⟩ := List.mem_iff_getElem?.mp hmem
  cases place with
  | full a => cases hkept
  | kept j k x => exact (kept_of_map_release hfilled hplace).2 (beq_iff_eq.mp hkept)

theorem countP_map_release {p : Place α → Bool}
    (hp : ∀ place, p (place.release id) = p place) :
    (places.map (Place.release id)).countP p = places.countP p := by
  rw [List.countP_map]
  exact List.countP_congr fun place _ => by rw [Function.comp_apply, hp]

end Places

end Lineage.RingBuffer

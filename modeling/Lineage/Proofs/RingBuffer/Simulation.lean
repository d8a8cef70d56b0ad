import Lineage.Proofs.RingBuffer.Queue

/-!
# A ring buffer simulates its queue

`Mirrors` relates a ring buffer between two calls to a queue.  The places of the queue are the
positions from `tail` on, the slots of one lap have their items, and cursors show the places that
are reserved.  Of the kept bounds it is only said that they are not too high.

There is a lemma for each way in which a call ends or waits for ever, and `Mirrors.perform` joins
them.
-/

namespace Lineage.RingBuffer

variable {α : Type} {producers consumers : Nat}

/-- A ring buffer between two calls has the places of a queue from `tail` on. -/
structure Mirrors (r : RingBuffer α) (q : Queue α) : Prop where
  capacity : q.capacity = r.capacity
  capacity_pos : 0 < r.capacity
  size_slots : r.slots.size = r.capacity
  head : r.head = r.tail + q.places.length
  length_le : q.places.length ≤ r.capacity
  /-- The kept bounds are not too high. -/
  lastTail : r.lastTail ≤ r.tail
  firstHead : r.firstHead ≤ r.head
  firstHead_kept : ∀ {i id offset : Nat} {item : Option α},
    q.places[i]? = some (Place.kept id offset item) → r.firstHead ≤ r.tail + i
  /-- Cursors show the reserved places and no others. -/
  consumer : ∀ id, id < r.consumers.size → (r.consumer id).cursor = atRest
  producer : ∀ id, r.AtHome id
  kept : ∀ {i id offset : Nat} {item : Option α},
    q.places[i]? = some (Place.kept id offset item) →
    id < r.producers.size ∧ (r.producer id).cursor + offset = r.tail + i
  kept_of_lt : ∀ {id offset : Nat}, offset < (r.producer id).reserved →
    ∃ (i : Nat) (item : Option α), q.places[i]? = some (Place.kept id offset item)
  reserved : ∀ id, (r.producer id).reserved = q.reserved id
  filled : ∀ id, (r.producer id).filled = q.filled id
  /-- The slots of one lap from `tail` on have the items of the places, and no others. -/
  slot : ∀ {i : Nat}, i < r.capacity → r.slot (r.tail + i) = q.places[i]?.bind Place.item

/-! ## The empty ring buffer -/

section Empty

variable (capacity producers consumers : Nat)

theorem eq_empty_of_new {capacity producers consumers : Nat} {r : RingBuffer α}
    (h : RingBuffer.new capacity producers consumers = .ok r) :
    r = empty capacity producers consumers ∧ 0 < capacity := by
  unfold RingBuffer.new at h
  split at h
  · cases h
  · rename_i hcapacity
    split at h
    · cases h
    · split at h <;> cases h
      refine ⟨rfl, Nat.pos_of_ne_zero fun h0 => ?_⟩
      subst h0
      exact hcapacity (by decide)

theorem new_eq_ok {capacity producers consumers : Nat} (hcapacity : isCapacity capacity = true)
    (hproducers : 0 < producers) (hconsumers : 0 < consumers) :
    (RingBuffer.new capacity producers consumers : Except SetupError (RingBuffer α)) =
      .ok (empty capacity producers consumers) := by
  simp [RingBuffer.new, hcapacity, Nat.ne_of_gt hproducers, Nat.ne_of_gt hconsumers]

@[simp] theorem producer_empty (id : Nat) :
    (empty capacity producers consumers : RingBuffer α).producer id = { cursor := atRest } := by
  by_cases h : id < producers <;> simp [producer, empty, h]

@[simp] theorem consumer_empty (id : Nat) :
    (empty capacity producers consumers : RingBuffer α).consumer id = { cursor := atRest } := by
  by_cases h : id < consumers <;> simp [consumer, empty, h]

@[simp] theorem slot_empty (position : Nat) :
    (empty capacity producers consumers : RingBuffer α).slot position = none := by
  by_cases h : position % capacity < capacity <;> simp [slot, empty, h]

end Empty

/-- A new ring buffer mirrors the empty queue. -/
theorem mirrors_new {capacity : Nat} {r : RingBuffer α}
    (h : RingBuffer.new capacity producers consumers = .ok r) :
    Mirrors r { capacity := capacity } := by
  obtain ⟨rfl, hpos⟩ := eq_empty_of_new h
  exact {
    capacity := rfl
    capacity_pos := hpos
    size_slots := Array.size_replicate
    head := rfl
    length_le := Nat.zero_le _
    lastTail := Nat.le_refl _
    firstHead := Nat.le_refl _
    firstHead_kept := fun hplace => by cases hplace
    consumer := fun id _ => by simp
    producer := fun id _ => by simp
    kept := fun hplace => by cases hplace
    kept_of_lt := fun hlt => by simp at hlt
    reserved := fun id => by simp [Queue.reserved]
    filled := fun id => by simp [Queue.filled]
    slot := fun _ => by simp }

namespace Mirrors

variable {r r' : RingBuffer α} {q : Queue α} {id : Nat}

/-! ## What the relation says of a wait -/

theorem checkClaim_eq (h : Mirrors r q) (id : Nat) (c : Claim α) :
    q.checkClaim id c = r.checkClaim id c := by
  cases c <;> simp only [Queue.checkClaim, RingBuffer.checkClaim, h.reserved, h.capacity]

/-- Since consumers rest, a producer computes `tail` as its bound. -/
theorem wantFloor_eq (h : Mirrors r q) (htail : r.tail ≤ atRest) : r.wantFloor = r.tail := by
  refine Nat.le_antisymm (le_wantFloor_iff.mp (Nat.le_refl _)).1
    (le_wantFloor_iff.mpr ⟨Nat.le_refl _, ?_⟩)
  intro id hid
  rw [h.consumer id hid]
  exact htail

/-- A producer rests, or shows the first of the places that it has reserved. -/
theorem cursor_cases (h : Mirrors r q) (id : Nat) :
    (r.producer id).cursor = atRest ∨
      ∃ (i : Nat) (item : Option α), q.places[i]? = some (.kept id 0 item) ∧
        (r.producer id).cursor = r.tail + i := by
  rcases Nat.eq_zero_or_pos (r.producer id).reserved with hnone | hpos
  · exact .inl (h.producer id hnone)
  · obtain ⟨i, item, hplace⟩ := h.kept_of_lt hpos
    exact .inr ⟨i, item, hplace, (h.kept hplace).2⟩

/-- The kept bound of the consumers lets nobody through whom a new one would not. -/
theorem firstHead_le_claimFloor (h : Mirrors r q) (hhead : r.head ≤ atRest) :
    r.firstHead ≤ r.claimFloor := by
  refine le_claimFloor_iff.mpr ⟨h.firstHead, fun id _ => ?_⟩
  rcases h.cursor_cases id with hrest | ⟨i, item, hplace, hcursor⟩
  · exact hrest ▸ Nat.le_trans h.firstHead hhead
  · exact hcursor ▸ h.firstHead_kept hplace

/-- A consumer goes on when the oldest place has an item to take. -/
theorem tail_lt_claimFloor (h : Mirrors r q) (hhead : r.head ≤ atRest) {a : α}
    {rest : List (Place α)} (hplaces : q.places = .full a :: rest) : r.tail < r.claimFloor := by
  have hlength := h.head
  rw [hplaces, List.length_cons] at hlength
  refine le_claimFloor_iff.mpr ⟨by omega, fun id _ => ?_⟩
  rcases h.cursor_cases id with hrest | ⟨i, item, hplace, hcursor⟩
  · omega
  · rcases Nat.eq_zero_or_pos i with rfl | hpos
    · rw [hplaces] at hplace
      cases hplace
    · omega

/-- A consumer waits when there is no place, or the oldest one is reserved. -/
theorem claimFloor_le_tail (h : Mirrors r q)
    (hplaces : ∀ (a : α) (rest : List (Place α)), q.places ≠ .full a :: rest) :
    r.claimFloor ≤ r.tail := by
  have hfloor := le_claimFloor_iff.mp (Nat.le_refl r.claimFloor)
  cases hcases : q.places with
  | nil =>
      have hlength := h.head
      rw [hcases, List.length_nil] at hlength
      exact Nat.le_trans hfloor.1 (Nat.le_of_eq hlength)
  | cons place rest =>
      cases place with
      | full a => exact absurd hcases (hplaces a rest)
      | kept id offset item =>
          obtain ⟨hid, hcursor⟩ := h.kept (i := 0) (by rw [hcases]; rfl)
          exact Nat.le_trans (hfloor.2 id hid) (by omega)

/-! ## Claims -/

/-- Positions of one lap have different slots. -/
theorem mod_ne_mod {c i j : Nat} (hlt : i < j) (hlap : j < i + c) : j % c ≠ i % c := by
  intro hmod
  have hd : c ∣ j - i := Nat.dvd_of_mod_eq_zero (Nat.sub_mod_eq_zero_of_mod_eq hmod)
  have hle := Nat.le_of_dvd (Nat.sub_pos_of_lt hlt) hd
  omega

end Mirrors

/-- What comes of a ring buffer when a producer has claimed positions and ended its call. -/
structure Extends (r r' : RingBuffer α) (id : Nat) (c : Claim α) : Prop where
  capacity : r'.capacity = r.capacity
  size_slots : r'.slots.size = r.slots.size
  producers : r'.producers.size = r.producers.size
  consumers : r'.consumers = r.consumers
  head : r'.head = r.head + c.size
  tail : r'.tail = r.tail
  firstHead : r'.firstHead = r.firstHead
  lastTail : r'.lastTail ≤ r.tail
  others : ∀ j, j ≠ id → r'.producer j = r.producer j
  home : r'.AtHome id
  reserved : (r'.producer id).reserved = (c.places id).countP (Place.isKept id)
  filled : (r'.producer id).filled = 0
  cursor : 0 < (r'.producer id).reserved → (r'.producer id).cursor = r.head
  /-- The new positions have the slots of the claim, if these were empty, and the others have
  theirs. -/
  slot : ∀ i, i < c.size → r.slot (r.head + i) = none →
    r'.slot (r.head + i) = (c.places id)[i]?.bind Place.item
  slot_ne : ∀ k, (∀ i, i < c.size → k % r.capacity ≠ (r.head + i) % r.capacity) →
    r'.slot k = r.slot k

namespace Mirrors

variable {r r' : RingBuffer α} {q : Queue α} {id : Nat}

/-- A producer without a reservation has no place. -/
theorem ne_of_idle (hidle : q.reserved id = 0) {i j offset : Nat} {item : Option α}
    (hplace : q.places[i]? = some (.kept j offset item)) : j ≠ id := by
  rintro rfl
  exact List.countP_eq_zero.mp hidle _ (List.mem_of_getElem? hplace) (beq_self_eq_true j)

/-- The slots of one lap have the items of the queue's places and of those of the claim. -/
theorem slot_extends (h : Mirrors r q) {c : Claim α} (he : Extends r r' id c)
    (hroom : q.places.length + c.size ≤ q.capacity) {i : Nat} (hi : i < r.capacity) :
    r'.slot (r.tail + i) = (q.places ++ c.places id)[i]?.bind Place.item := by
  have hlength := h.head
  have hcapacity := h.capacity
  rw [List.getElem?_append]
  split
  next hlt =>
    rw [he.slot_ne _ fun m hm => Ne.symm (mod_ne_mod (by omega) (by omega))]
    exact h.slot hi
  next hge =>
    have hnone := h.slot hi
    rw [List.getElem?_eq_none (Nat.le_of_not_lt hge)] at hnone
    obtain ⟨m, rfl⟩ := Nat.exists_eq_add_of_le (Nat.le_of_not_lt hge)
    rw [← Nat.add_assoc, ← h.head] at hnone ⊢
    rw [Nat.add_sub_cancel_left]
    by_cases hm : m < c.size
    · exact he.slot m hm hnone
    · rw [he.slot_ne _ fun n hn => mod_ne_mod (by omega) (by omega), hnone,
        List.getElem?_eq_none (by rw [length_places]; omega)]

/-- The places of a claim come after those that the queue has. -/
theorem extend (h : Mirrors r q) (hid : id < r.producers.size) {c : Claim α}
    (hidle : q.reserved id = 0) (hroom : q.places.length + c.size ≤ q.capacity)
    (he : Extends r r' id c) :
    Mirrors r' { q with places := q.places ++ c.places id } := by
  have hold : ∀ {i j k : Nat} {x : Option α}, q.places[i]? = some (.kept j k x) →
      r'.producer j = r.producer j := fun hplace => he.others _ (ne_of_idle hidle hplace)
  have hlength := h.head
  have hcapacity := h.capacity
  exact {
    capacity := h.capacity.trans he.capacity.symm
    capacity_pos := he.capacity ▸ h.capacity_pos
    size_slots := by rw [he.size_slots, he.capacity, h.size_slots]
    head := by rw [he.head, he.tail, List.length_append, length_places, h.head, Nat.add_assoc]
    length_le := by
      rw [he.capacity, List.length_append, length_places]
      omega
    lastTail := he.tail ▸ he.lastTail
    firstHead := by
      rw [he.firstHead, he.head]
      exact Nat.le_trans h.firstHead (Nat.le_add_right ..)
    firstHead_kept := fun {i j k x} hplace => by
      rw [he.firstHead, he.tail]
      rcases kept_of_append hplace with hplace | ⟨-, rfl, -⟩
      · exact h.firstHead_kept hplace
      · have hfirst := h.firstHead
        omega
    consumer := fun j hj => by
      unfold RingBuffer.consumer
      rw [he.consumers] at hj ⊢
      exact h.consumer j hj
    producer := fun j => by
      by_cases hj : j = id
      · exact hj ▸ he.home
      · unfold AtHome
        rw [he.others j hj]
        exact h.producer j
    kept := fun {i j k x} hplace => by
      rw [he.producers, he.tail]
      rcases kept_of_append hplace with hplace | ⟨rfl, rfl, hk⟩
      · rw [hold hplace]
        exact h.kept hplace
      · rw [he.cursor (he.reserved ▸ Nat.zero_lt_of_lt hk)]
        exact ⟨hid, by omega⟩
    kept_of_lt := fun {j k} hk => by
      by_cases hj : j = id
      · subst hj
        rw [he.reserved] at hk
        refine ⟨q.places.length + k, none, ?_⟩
        rw [List.getElem?_append_right (Nat.le_add_right ..), Nat.add_sub_cancel_left]
        exact exists_kept_places hk
      · rw [he.others j hj] at hk
        obtain ⟨i, item, hplace⟩ := h.kept_of_lt hk
        obtain ⟨hlt, -⟩ := List.getElem?_eq_some_iff.mp hplace
        exact ⟨i, item, by rw [List.getElem?_append_left hlt]; exact hplace⟩
    reserved := fun j => by
      unfold Queue.reserved
      rw [List.countP_append]
      by_cases hj : j = id
      · subst hj
        rw [he.reserved, show q.places.countP (Place.isKept j) = 0 from hidle, Nat.zero_add]
      · rw [he.others j hj, h.reserved j, countP_isKept_places_ne c hj]
        rfl
    filled := fun j => by
      unfold Queue.filled
      rw [List.countP_append, countP_isFilled_places]
      by_cases hj : j = id
      · subst hj
        rw [he.filled]
        have hle := q.filled_le_reserved j
        rw [hidle] at hle
        exact (Nat.le_zero.mp hle).symm
      · rw [he.others j hj]
        exact h.filled j
    slot := fun {i} hi => by
      rw [he.tail]
      exact h.slot_extends he hroom (he.capacity ▸ hi) }

theorem mod_lt_size (h : Mirrors r q) (k : Nat) : k % r.capacity < r.slots.size := by
  rw [h.size_slots]
  exact Nat.mod_lt _ h.capacity_pos

/-- A push extends the ring buffer by its item. -/
theorem extends_push (h : Mirrors r q) (hid : id < r.producers.size) (hidle : q.reserved id = 0)
    {kept : Nat} (hkept : kept ≤ r.tail) (item : α) :
    Extends r (r.afterPush id kept item) id (.push item) := by
  have hreserved := (h.reserved id).trans hidle
  have hhome := h.producer id hreserved
  -- The producer shows no position any more, as before its call.
  have hproducer : ∀ j, (r.afterPush id kept item).producer j = r.producer j := by
    intro j
    refine (producer_setProducer r hid _ j).trans ?_
    split
    next hj => rw [hj, ← hhome]
    next => rfl
  have hslot : ∀ k, (r.afterPush id kept item).slot k =
      if k % r.capacity = r.head % r.capacity then some item else r.slot k :=
    fun k => slot_setSlot (r.setProducerCursor id atRest) (h.mod_lt_size r.head) (some item) k
  exact {
    capacity := rfl
    size_slots := size_slots_setSlot ..
    producers := producers_size_setProducer ..
    consumers := rfl
    head := rfl
    tail := rfl
    firstHead := rfl
    lastTail := hkept
    others := fun j _ => hproducer j
    home := fun _ => (congrArg ProducerRole.cursor (hproducer id)).trans hhome
    reserved := (congrArg ProducerRole.reserved (hproducer id)).trans hreserved
    filled := by
      have hle := q.filled_le_reserved id
      rw [hproducer, h.filled]
      omega
    cursor := fun hpos => by
      rw [hproducer, hreserved] at hpos
      cases hpos
    slot := fun i hi _ => by
      obtain rfl : i = 0 := Nat.lt_one_iff.mp hi
      exact (hslot _).trans (if_pos rfl)
    slot_ne := fun k hk => (hslot k).trans (if_neg (hk 0 Nat.one_pos)) }

/-- A reservation extends the ring buffer by the places that it counts. -/
theorem extends_reserve (hid : id < r.producers.size) {kept count : Nat} (hpos : 0 < count)
    (hkept : kept ≤ r.tail) : Extends r (r.afterReserve id kept count) id (.reserve count) := by
  have hself : (r.afterReserve id kept count).producer id =
      { r.producer id with cursor := r.head, reserved := count, filled := 0 } :=
    producer_setProducer_self r hid _
  exact {
    capacity := rfl
    size_slots := rfl
    producers := producers_size_setProducer ..
    consumers := rfl
    head := rfl
    tail := rfl
    firstHead := rfl
    lastTail := hkept
    others := fun j hj => producer_setProducer_ne r hj _
    home := fun hnone => by
      rw [hself] at hnone
      exact absurd hnone (Nat.ne_of_gt hpos)
    reserved := by rw [hself, countP_isKept_reserve]
    filled := by rw [hself]
    cursor := fun _ => by rw [hself]
    slot := fun i hi hnone => by
      rw [exists_kept_places (by rw [countP_isKept_reserve]; exact hi)]
      exact hnone
    slot_ne := fun _ _ => rfl }

/-! ## Reservations -/

/-- A reserved offset has one place. -/
theorem kept_unique (h : Mirrors r q) {offset i j : Nat} {x y : Option α}
    (hi : q.places[i]? = some (.kept id offset x)) (hj : q.places[j]? = some (.kept id offset y)) :
    j = i := by
  have hcursor := (h.kept hi).2
  have hcursor' := (h.kept hj).2
  omega

/-- A producer fills a place that it has reserved. -/
theorem fill (h : Mirrors r q) (hid : id < r.producers.size) {offset : Nat}
    (hlt : offset < q.reserved id) (item : α) :
    Mirrors (r.afterFill id item ((r.producer id).cursor + offset))
      { q with places := q.places.map (Place.fill id offset item) } := by
  rw [← h.reserved] at hlt
  obtain ⟨i, x, hplace⟩ := h.kept_of_lt hlt
  obtain ⟨hi, hget⟩ := List.getElem?_eq_some_iff.mp hplace
  have hcursor := (h.kept hplace).2
  have hlength := h.length_le
  have hold : r.slot (r.tail + i) = x := by
    rw [h.slot (by omega), hplace]
    rfl
  have hproducer : ∀ j, (r.afterFill id item (r.tail + i)).producer j =
      if j = id then
        { r.producer id with filled := (r.producer id).filled + if x.isNone then 1 else 0 }
      else r.producer j := by
    intro j
    rw [← hold]
    exact producer_setProducer (r.setSlot (r.tail + i) (some item)) hid _ j
  rw [hcursor, map_fill_eq_set hplace (fun j y hj => h.kept_unique hplace hj) item]
  have hroles : ∀ j,
      ((r.afterFill id item (r.tail + i)).producer j).cursor = (r.producer j).cursor ∧
      ((r.afterFill id item (r.tail + i)).producer j).reserved = (r.producer j).reserved := by
    intro j
    rw [hproducer]
    split
    next hj => exact ⟨hj ▸ rfl, hj ▸ rfl⟩
    next => exact ⟨rfl, rfl⟩
  exact {
    capacity := h.capacity
    capacity_pos := h.capacity_pos
    size_slots := (size_slots_setSlot ..).trans h.size_slots
    head := by rw [List.length_set]; exact h.head
    length_le := by rw [List.length_set]; exact h.length_le
    lastTail := h.lastTail
    firstHead := h.firstHead
    firstHead_kept := fun hj => h.firstHead_kept (kept_of_set hplace hj).choose_spec
    consumer := h.consumer
    producer := fun j => by
      unfold AtHome
      rw [(hroles j).1, (hroles j).2]
      exact h.producer j
    kept := fun {j j' k y} hj => by
      obtain ⟨y', hj'⟩ := kept_of_set hplace hj
      rw [(hroles j').1]
      exact ⟨Nat.lt_of_lt_of_eq (h.kept hj').1 (producers_size_setProducer ..).symm,
        (h.kept hj').2⟩
    kept_of_lt := fun {j k} hk => by
      rw [(hroles j).2] at hk
      obtain ⟨m, y, hm⟩ := h.kept_of_lt hk
      by_cases him : i = m
      · subst him
        rw [hplace] at hm
        cases hm
        exact ⟨i, some item, List.getElem?_set_self hi⟩
      · exact ⟨m, y, (List.getElem?_set_ne him).trans hm⟩
    reserved := fun j => by
      rw [(hroles j).2, h.reserved]
      exact (countP_set_of_eq hplace (by rfl)).symm
    filled := fun j => by
      rw [hproducer]
      unfold Queue.filled
      by_cases hj : j = id
      · subst hj
        rw [if_pos rfl, h.filled]
        cases x with
        | none =>
            rw [List.countP_set hi, hget]
            simp [Place.isFilled, Place.isKept, Place.item, Queue.filled]
        | some b => exact (countP_set_of_eq hplace (by rfl)).symm
      · rw [if_neg hj, h.filled]
        have hother : (id == j) = false := beq_false_of_ne (Ne.symm hj)
        refine (countP_set_of_eq hplace ?_).symm
        simp [Place.isFilled, Place.isKept, hother]
    slot := fun {j} (hj : j < r.capacity) => by
      refine (slot_setSlot r (h.mod_lt_size _) (some item) (r.tail + j)).trans ?_
      by_cases hij : i = j
      · subst hij
        rw [if_pos rfl, List.getElem?_set_self hi]
        rfl
      · rw [List.getElem?_set_ne hij, if_neg, h.slot hj]
        rcases Nat.lt_or_gt_of_ne hij with hlt | hgt
        · exact mod_ne_mod (by omega) (by omega)
        · exact (mod_ne_mod (by omega) (by omega)).symm }

/-- A producer releases what it has reserved and filled. -/
theorem release (h : Mirrors r q) (hid : id < r.producers.size)
    (hfilled : q.filled id = q.reserved id) :
    Mirrors (r.afterRelease id) { q with places := q.places.map (Place.release id) } := by
  have hproducer : ∀ j, (r.afterRelease id).producer j =
      if j = id then { r.producer id with cursor := atRest, reserved := 0, filled := 0 }
      else r.producer j :=
    producer_setProducer r hid _
  exact {
    capacity := h.capacity
    capacity_pos := h.capacity_pos
    size_slots := h.size_slots
    head := by rw [List.length_map]; exact h.head
    length_le := by rw [List.length_map]; exact h.length_le
    lastTail := h.lastTail
    firstHead := h.firstHead
    firstHead_kept := fun hi => h.firstHead_kept (kept_of_map_release hfilled hi).1
    consumer := h.consumer
    producer := fun j => by
      unfold AtHome
      rw [hproducer]
      split
      next => exact fun _ => rfl
      next => exact h.producer j
    kept := fun {i j k y} hi => by
      obtain ⟨hi, hj⟩ := kept_of_map_release hfilled hi
      rw [hproducer, if_neg hj]
      exact ⟨Nat.lt_of_lt_of_eq (h.kept hi).1 (producers_size_setProducer ..).symm,
        (h.kept hi).2⟩
    kept_of_lt := fun {j k} hk => by
      rw [hproducer] at hk
      split at hk
      next => cases hk
      next hj =>
        obtain ⟨i, y, hi⟩ := h.kept_of_lt hk
        refine ⟨i, y, ?_⟩
        rw [List.getElem?_map, hi]
        cases y <;> simp [Place.release, hj]
    reserved := fun j => by
      rw [hproducer]
      split
      next hj => exact hj ▸ (countP_isKept_map_release hfilled).symm
      next hj => exact (h.reserved j).trans (countP_map_release (isKept_release_ne hj)).symm
    filled := fun j => by
      rw [hproducer]
      split
      next hj =>
        have hle := Queue.filled_le_reserved { q with places := q.places.map (Place.release id) } id
        exact hj ▸ (Nat.le_zero.mp
          (Nat.le_trans hle (Nat.le_of_eq (countP_isKept_map_release hfilled)))).symm
      next hj =>
        refine (h.filled j).trans (countP_map_release fun place => ?_).symm
        simp only [Place.isFilled, item_release, isKept_release_ne hj]
    slot := fun {i} hi => by
      rw [List.getElem?_map]
      refine (h.slot hi).trans ?_
      cases q.places[i]? <;> simp }

/-! ## Items -/

/-- A consumer takes the item of the oldest place. -/
theorem take (h : Mirrors r q) (hid : id < r.consumers.size) {a : α} {rest : List (Place α)}
    (hplaces : q.places = .full a :: rest) {kept : Nat} (hkept : kept ≤ r.claimFloor) :
    Mirrors (r.afterTake id kept) { q with places := rest } := by
  -- The consumer shows no position any more, as before its call.
  have hconsumer : ∀ j, j < r.consumers.size →
      ((r.afterTake id kept).consumer j).cursor = atRest := by
    intro j hj
    rw [show (r.afterTake id kept).consumer j = _ from consumer_setConsumer r hid _ j]
    split
    next => rfl
    next => exact h.consumer j hj
  have hslot : ∀ k, (r.afterTake id kept).slot k =
      if k % r.capacity = r.tail % r.capacity then none else r.slot k :=
    fun k => slot_setSlot (r.setConsumerCursor id atRest) (h.mod_lt_size r.tail) none k
  have hnext : ∀ i, q.places[i + 1]? = rest[i]? := by
    intro i
    rw [hplaces, List.getElem?_cons_succ]
  have hlength := h.head
  have hle := h.length_le
  rw [hplaces, List.length_cons] at hlength hle
  have hfloor := le_claimFloor_iff.mp hkept
  have hcount : ∀ (p : Place α → Bool), p (.full a) = false →
      rest.countP p = q.places.countP p := by
    intro p hp
    rw [hplaces, List.countP_cons, hp]
    rfl
  exact {
    capacity := h.capacity
    capacity_pos := h.capacity_pos
    size_slots := (size_slots_setSlot ..).trans h.size_slots
    head := show r.head = r.tail + 1 + rest.length by omega
    length_le := Nat.le_of_succ_le hle
    lastTail := Nat.le_succ_of_le h.lastTail
    firstHead := hfloor.1
    firstHead_kept := fun {i j k y} hi => by
      obtain ⟨hj, hcursor⟩ := h.kept ((hnext i).trans hi)
      have hbound := hfloor.2 j hj
      show kept ≤ r.tail + 1 + i
      omega
    consumer := fun j hj => hconsumer j (Nat.lt_of_lt_of_eq hj (consumers_size_setConsumer ..))
    producer := h.producer
    kept := fun {i j k y} hi => by
      obtain ⟨hj, hcursor⟩ := h.kept ((hnext i).trans hi)
      exact ⟨hj, hcursor.trans (by show r.tail + (i + 1) = r.tail + 1 + i; omega)⟩
    kept_of_lt := fun {j k} hk => by
      obtain ⟨i, y, hi⟩ := h.kept_of_lt hk
      rw [hplaces] at hi
      cases i with
      | zero => cases hi
      | succ i => exact ⟨i, y, hi⟩
    reserved := fun j => (h.reserved j).trans (hcount (Place.isKept j) rfl).symm
    filled := fun j => (h.filled j).trans (hcount (Place.isFilled j) rfl).symm
    slot := fun {i} (hi : i < r.capacity) => by
      have hposition : r.tail + 1 + i = r.tail + (i + 1) := by omega
      refine (hslot (r.tail + 1 + i)).trans ?_
      rw [hposition]
      by_cases hlap : i + 1 = r.capacity
      · -- The last slot of the new lap is the one that the consumer has emptied.
        rw [hlap, Nat.add_mod_right, if_pos rfl,
          List.getElem?_eq_none (show rest.length ≤ i by omega)]
        rfl
      · rw [if_neg (mod_ne_mod (by omega) (by omega)), h.slot (by omega), hnext] }

end Mirrors

/-! ## Calls -/

/-- A call of a ring buffer has ended like that of its queue. -/
structure EndsLike (r : RingBuffer α) (size : Nat) (x : RingBuffer α × Outcome α)
    (y : Queue α × Outcome α) : Prop where
  outcome : x.2 = y.2
  mirrors : Mirrors x.1 y.1
  capacity : x.1.capacity = r.capacity
  producers : x.1.producers.size = r.producers.size
  consumers : x.1.consumers.size = r.consumers.size
  head : x.1.head ≤ r.head + size

namespace Mirrors

variable {r : RingBuffer α} {q : Queue α} {id : Nat}

theorem endsLike_self (h : Mirrors r q) (size : Nat) (o : Outcome α) :
    EndsLike r size (r, o) (q, o) :=
  ⟨rfl, h, rfl, rfl, rfl, Nat.le_add_right ..⟩

/-- A claim ends like that of the queue, or waits for ever. -/
theorem claim (h : Mirrors r q) (hid : id < r.producers.size) (hhead : r.head ≤ atRest)
    (c : Claim α) :
    (q.claim id c = none ∧ Waits (runProducer id) r (.check c)) ∨
      ∃ x y, q.claim id c = some y ∧ runProducer id r.onePass r (.check c) = some x ∧
        EndsLike r c.size x y := by
  have hcheck := h.checkClaim_eq id c
  have hlength := h.head
  have hcapacity := h.capacity
  have hfloor := h.wantFloor_eq (by omega)
  have hkept : r.lastTail ≤ r.wantFloor := hfloor ▸ h.lastTail
  unfold Queue.claim
  cases hok : q.checkClaim id c with
  | error m =>
      rw [hok] at hcheck
      refine .inr ⟨_, _, rfl, ?_, h.endsLike_self c.size (.misuse m)⟩
      exact runProducer_misuse hcheck.symm (r.producers.size + r.consumers.size + 15)
  | ok u =>
      obtain ⟨hidle, hpos⟩ := Queue.checkClaim_ok hok
      rw [hok] at hcheck
      by_cases hroom : q.places.length + c.size ≤ q.capacity
      · rw [if_pos hroom]
        obtain ⟨kept, hle, hreaches⟩ := claim_reaches_granted hcheck.symm hkept (by omega)
        have hfuel : r.consumers.size + 10 + 2 ≤ r.onePass := by
          unfold onePass
          omega
        cases c with
        | push item =>
            refine .inr ⟨_, _, rfl, hreaches.ends (runProducer_push hid kept item) hfuel,
              rfl, ?_, rfl, ?_, rfl, Nat.le_refl _⟩
            · exact h.extend hid hidle hroom (h.extends_push hid hidle (hfloor ▸ hle) item)
            · exact producers_size_setProducer ..
        | reserve count =>
            refine .inr ⟨_, _, rfl, hreaches.ends (runProducer_reserve hid kept count) hfuel,
              rfl, ?_, rfl, ?_, rfl, Nat.le_refl _⟩
            · exact h.extend hid hidle hroom (extends_reserve hid hpos (hfloor ▸ hle))
            · exact producers_size_setProducer ..
      · rw [if_neg hroom]
        exact .inl ⟨rfl, claim_waits hcheck.symm hkept (by omega)⟩

/-- A fill ends like that of the queue. -/
theorem endsLike_fill (h : Mirrors r q) (hid : id < r.producers.size) (item : α) (offset : Nat) :
    ∃ x, r.produce id (.fill item offset) = some x ∧
      EndsLike r 0 x (q.fill id item offset) := by
  unfold Queue.fill
  by_cases hlt : offset < q.reserved id
  · rw [if_pos hlt]
    have hcall := runProducer_fill item (Nat.lt_of_lt_of_eq hlt (h.reserved id).symm)
      (r.producers.size + r.consumers.size + 12)
    exact ⟨_, hcall, rfl, h.fill hid hlt item, rfl, producers_size_setProducer ..,
      rfl, Nat.le_refl _⟩
  · rw [if_neg hlt]
    have houtside := Nat.le_trans (Nat.le_of_eq (h.reserved id)) (Nat.le_of_not_lt hlt)
    exact ⟨_, runProducer_fill_outside item houtside (r.producers.size + r.consumers.size + 15),
      h.endsLike_self _ _⟩

/-- A release ends like that of the queue. -/
theorem endsLike_release (h : Mirrors r q) (hid : id < r.producers.size) :
    ∃ x, r.produce id .release = some x ∧ EndsLike r 0 x (q.release id) := by
  unfold Queue.release
  rw [← h.filled, ← h.reserved]
  by_cases hfilled : (r.producer id).filled = (r.producer id).reserved
  · rw [if_neg (Decidable.not_not.mpr hfilled)]
    have hcall := runProducer_release hid hfilled (r.producers.size + r.consumers.size + 11)
    have hqueue := (h.filled id).symm.trans (hfilled.trans (h.reserved id))
    exact ⟨_, hcall, rfl, h.release hid hqueue, rfl, producers_size_setProducer ..,
      rfl, Nat.le_refl _⟩
  · rw [if_pos hfilled]
    exact ⟨_, runProducer_release_unfilled hfilled (r.producers.size + r.consumers.size + 14),
      h.endsLike_self _ _⟩

/-- A call of a consumer ends like that of the queue, or waits for ever. -/
theorem pop (h : Mirrors r q) (hid : id < r.consumers.size) (hhead : r.head ≤ atRest) :
    (q.pop = none ∧ Waits (runConsumer id) r .readTail) ∨
      ∃ x y, q.pop = some y ∧ r.consume id = some x ∧ EndsLike r 0 x y := by
  have hkept := h.firstHead_le_claimFloor hhead
  unfold Queue.pop
  split
  next a rest hplaces =>
    have hslot : r.slot r.tail = some a := by
      have hfirst := h.slot (i := 0) h.capacity_pos
      rw [hplaces] at hfirst
      exact hfirst
    obtain ⟨kept, hle, hreaches⟩ := want_reaches_take hkept (h.tail_lt_claimFloor hhead hplaces)
    have hfuel : r.producers.size + 9 + 2 ≤ r.onePass := by
      unfold onePass
      omega
    exact .inr ⟨_, _, rfl, hreaches.ends (runConsumer_take hid kept hslot) hfuel, rfl,
      h.take hid hplaces hle, rfl, rfl, consumers_size_setConsumer .., Nat.le_refl _⟩
  next hnone =>
    exact .inl ⟨rfl, want_waits hkept (h.claimFloor_le_tail fun a rest heq => hnone a rest heq)⟩

/-- A call ends like that of the queue, or the queue has no answer and it waits for ever. -/
theorem perform (h : Mirrors r q) (hproducers : r.producers.size = producers)
    (hconsumers : r.consumers.size = consumers) (hhead : r.head ≤ atRest)
    (request : Request α producers consumers) :
    (q.perform request = none ∧ r.NeverEnds request) ∨
      ∃ x y, q.perform request = some y ∧ r.perform request = some x ∧
        EndsLike r request.size x y := by
  cases request with
  | consume id => exact h.pop (Nat.lt_of_lt_of_eq id.isLt hconsumers.symm) hhead
  | produce id call =>
      have hid : id.val < r.producers.size := Nat.lt_of_lt_of_eq id.isLt hproducers.symm
      cases call with
      | push item => exact h.claim hid hhead (.push item)
      | reserve count => exact h.claim hid hhead (.reserve count)
      | fill item offset =>
          obtain ⟨x, hcall, hends⟩ := h.endsLike_fill hid item offset
          exact .inr ⟨x, _, rfl, hcall, hends⟩
      | release =>
          obtain ⟨x, hcall, hends⟩ := h.endsLike_release hid
          exact .inr ⟨x, _, rfl, hcall, hends⟩

end Mirrors

theorem NeverEnds.perform_eq_none {r : RingBuffer α} {request : Request α producers consumers}
    (h : r.NeverEnds request) : r.perform request = none := by
  cases request with
  | produce id call => exact h r.onePass
  | consume id => exact h r.onePass

/-- Up to the first call that waits for ever, calls have the same outcomes and leave as many places
as those of the queue. -/
theorem Mirrors.replay_eq {r : RingBuffer α} {q : Queue α} (h : Mirrors r q)
    (hproducers : r.producers.size = producers) (hconsumers : r.consumers.size = consumers)
    {requests : List (Request α producers consumers)}
    (hhead : r.head + Request.total requests ≤ atRest) :
    r.replay requests = q.replay requests := by
  induction requests generalizing r q with
  | nil => rfl
  | cons request requests ih =>
      rw [Request.total] at hhead
      simp only [RingBuffer.replay, Queue.replay]
      rcases h.perform hproducers hconsumers (by omega) request with
        ⟨hqueue, hnever⟩ | ⟨⟨r', o⟩, ⟨q', o'⟩, hqueue, hcall, hends⟩
      · rw [hqueue, hnever.perform_eq_none]
      · obtain rfl : o = o' := hends.outcome
        have hsize : r'.size = q'.places.length := by
          have hhead' : r'.head = r'.tail + q'.places.length := hends.mirrors.head
          unfold RingBuffer.size
          omega
        have hnext := hends.head
        rw [hqueue, hcall]
        simp only [hsize]
        rw [ih hends.mirrors (hends.producers.trans hproducers) (hends.consumers.trans hconsumers)
          (by omega)]

/-- After calls that all end, the ring buffer has its queue again. -/
theorem Mirrors.performAll {r r' : RingBuffer α} {q : Queue α} (h : Mirrors r q)
    (hproducers : r.producers.size = producers) (hconsumers : r.consumers.size = consumers)
    {requests : List (Request α producers consumers)}
    (hhead : r.head + Request.total requests ≤ atRest)
    (hcalls : r.performAll requests = some r') :
    ∃ q', Mirrors r' q' ∧ r'.capacity = r.capacity ∧ r'.producers.size = producers ∧
      r'.consumers.size = consumers ∧ r'.head ≤ atRest := by
  induction requests generalizing r q with
  | nil =>
      cases hcalls
      exact ⟨q, h, rfl, hproducers, hconsumers, Nat.le_trans (Nat.le_add_right ..) hhead⟩
  | cons request requests ih =>
      rw [Request.total] at hhead
      rw [RingBuffer.performAll, List.foldlM_cons] at hcalls
      rcases h.perform hproducers hconsumers (by omega) request with
        ⟨-, hnever⟩ | ⟨⟨s, o⟩, ⟨q', o'⟩, -, hcall, hends⟩
      · rw [hnever.perform_eq_none] at hcalls
        cases hcalls
      · rw [hcall] at hcalls
        have hnext : s.head ≤ r.head + request.size := hends.head
        have hhead' : s.head + Request.total requests ≤ atRest := by omega
        obtain ⟨q'', hmirrors, hcapacity, hrest⟩ :=
          ih hends.mirrors (hends.producers.trans hproducers)
            (hends.consumers.trans hconsumers) hhead' hcalls
        exact ⟨q'', hmirrors, hcapacity.trans hends.capacity, hrest⟩

/-- Run one call at a time, a ring buffer is a bounded queue.  Up to the first call that waits for
ever, each call has the outcome that it has on the queue and leaves as many places between `head`
and `tail`.  There are never more of them than slots.  A call that does not end within one pass of
its wait loop never ends, so no kept bound makes a call wait that need not.

The positions stay one lap below `UInt64.size`, so no counter passes it. -/
theorem replay_eq_queue {capacity : Nat} {r : RingBuffer α}
    (hnew : RingBuffer.new capacity producers consumers = .ok r)
    (requests : List (Request α producers consumers))
    (hsmall : Request.total requests < UInt64.size - capacity) :
    r.replay requests = Queue.replay { capacity := capacity } requests ∧
      ∀ r', r.performAll requests = some r' →
        r'.size ≤ capacity ∧
          ∀ request : Request α producers consumers, r'.perform request = none →
            r'.NeverEnds request := by
  have hmirrors := mirrors_new hnew
  obtain ⟨rfl, -⟩ := eq_empty_of_new hnew
  have hproducers : (empty capacity producers consumers : RingBuffer α).producers.size =
      producers :=
    Array.size_replicate
  have hconsumers : (empty capacity producers consumers : RingBuffer α).consumers.size =
      consumers :=
    Array.size_replicate
  have hhead : 0 + Request.total requests ≤ atRest := by
    unfold atRest
    omega
  refine ⟨hmirrors.replay_eq hproducers hconsumers hhead, fun r' hcalls => ?_⟩
  obtain ⟨q, hq, hcapacity, hproducers', hconsumers', hhead'⟩ :=
    hmirrors.performAll hproducers hconsumers hhead hcalls
  have hlength := hq.head
  refine ⟨?_, fun request hnone => ?_⟩
  · rw [RingBuffer.size, hlength, Nat.add_sub_cancel_left,
      show capacity = r'.capacity from hcapacity.symm]
    exact hq.length_le
  · rcases hq.perform hproducers' hconsumers' hhead' request with
      ⟨-, hnever⟩ | ⟨x, y, -, hcall, -⟩
    · exact hnever
    · rw [hnone] at hcall
      cases hcall

/-- Two producers fill two slots, one by a reservation.  The consumer gets the items in the order of
their positions, once over the end of the slots, and waits when the last one is reserved. -/
theorem replay_eq_queue_laps :
    let requests : List (Request Nat 2 1) :=
      [.produce 0 (.push 7), .produce 1 (.reserve 1), .consume 0, .produce 0 (.push 8),
        .produce 1 (.fill 9 0), .produce 1 .release, .consume 0, .consume 0,
        .produce 0 (.reserve 2), .consume 0]
    Request.total requests < UInt64.size - 2 ∧
      (empty 2 2 1 : RingBuffer Nat).replay requests =
        [.answered .done 1, .answered .done 2, .answered (.item 7) 1, .answered .done 2,
          .answered (.filled true) 2, .answered .done 2, .answered (.item 9) 1,
          .answered (.item 8) 0, .answered .done 2, .blocked] :=
  ⟨by decide, (@replay_eq_queue Nat 2 1 2 _ rfl _ (by decide)).1.trans (by decide)⟩

end Lineage.RingBuffer

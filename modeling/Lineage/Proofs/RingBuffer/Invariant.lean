import Lineage.Proofs.RingBuffer.Ledger

/-!
# What holds in every state of a ring buffer

`Sound` ties the counters, the cursors and the slots of a ring buffer to the ledger of its run.  The
two kept bounds are the heart of it.  `firstHead` is at most the first position of every claim under
way, and `lastTail` is at most every position that a consumer is after.  Both say something of the
future too, since new claims begin at `head` and new wants at `tail`.  So a bound that was right
stays right, and it does no harm that a late writer puts a lower one in its place.

`ProducerFits` and `ConsumerFits` say what a call knows at each point.  They speak only of the
call's own role and of what cannot be undone, so the steps of other roles keep them
(`ProducerFits.frame`, `ConsumerFits.frame`).
-/

namespace Lineage.RingBuffer

variable {α : Type}

/-! ## The state -/

/-- The ring buffer is as the ledger says. -/
structure Sound (l : Ledger α) (r : RingBuffer α) : Prop where
  capacity_pos : 0 < r.capacity
  size_slots : r.slots.size = r.capacity
  /-- Claims lie below `head` and are those of producers. -/
  claim_lt : ∀ {id b c}, l.claim id = some (b, c) → id < r.producers.size
  claim_le_head : ∀ {id b c}, l.claim id = some (b, c) → b + c ≤ r.head
  claim_owner : ∀ {id b c}, l.claim id = some (b, c) →
    ∀ k, b ≤ k → k < b + c → l.owner k = some id
  /-- The positions below `head` are those that were claimed. -/
  owner_iff : ∀ {k}, (∃ id, l.owner k = some id) ↔ k < r.head
  /-- A claimed position is under way or has its item. -/
  covered_or_stored : ∀ {k id}, l.owner k = some id →
    (∃ b c, l.claim id = some (b, c) ∧ b ≤ k ∧ k < b + c) ∨
      ∃ a, l.stored k = some (id, a)
  stored_owner : ∀ {k id a}, l.stored k = some (id, a) → l.owner k = some id
  /-- When something is stored for a position, the slot has no earlier item left. -/
  stored_room : ∀ {k x}, l.stored k = some x →
    ∀ j, j < k → j % r.capacity = k % r.capacity → l.taken j = true
  taken_stored : ∀ {k}, l.taken k = true → ∃ x, l.stored k = some x
  taken_published : ∀ {k}, l.taken k = true → l.Published k
  /-- The positions below `tail` are those that consumers claimed. -/
  want_lt : ∀ {id k}, l.want id = some k → id < r.consumers.size
  want_taker : ∀ {id k}, l.want id = some k → l.taker k = some id
  taker_iff : ∀ {k}, (∃ id, l.taker k = some id) ↔ k < r.tail
  taken_lt_tail : ∀ {k}, l.taken k = true → k < r.tail
  taken_or_wanted : ∀ {k}, k < r.tail → l.taken k = true ∨ ∃ id, l.want id = some k
  returned_lt_tail : ∀ {k}, l.returned k = true → k < r.tail
  returned_unwanted : ∀ {k}, l.returned k = true → ∀ id, l.want id ≠ some k
  /-- Cursors and kept bounds are not too high. -/
  cursor_le_claim : ∀ {id b c}, l.claim id = some (b, c) → (r.producer id).cursor ≤ b
  cursor_le_want : ∀ {id k}, l.want id = some k → (r.consumer id).cursor ≤ k
  firstHead_le_head : r.firstHead ≤ r.head
  firstHead_le_claim : ∀ {id b c}, l.claim id = some (b, c) → r.firstHead ≤ b
  lastTail_le_tail : r.lastTail ≤ r.tail
  lastTail_le_want : ∀ {id k}, l.want id = some k → r.lastTail ≤ k
  /-- A slot holds the item of a position from when it is stored to when it is taken. -/
  slot_stored : ∀ {k id a}, l.stored k = some (id, a) → l.taken k = false → r.slot k = some a
  slot_unstored : ∀ {k}, l.stored k = none →
    (∀ j, j < k → j % r.capacity = k % r.capacity → l.taken j = true) → r.slot k = none

/-- The slots of all positions up to one have been emptied of earlier laps. -/
def Room (l : Ledger α) (capacity last : Nat) : Prop :=
  ∀ k, k + capacity ≤ last → l.taken k = true

theorem Room.lap {l : Ledger α} {capacity last k : Nat} (h : Room l capacity last)
    (hk : k ≤ last) :
    ∀ j, j < k → j % capacity = k % capacity → l.taken j = true := by
  intro j hj hmod
  apply h
  have hd : capacity ∣ k - j :=
    Nat.dvd_of_mod_eq_zero (Nat.sub_mod_eq_zero_of_mod_eq hmod.symm)
  have hle := Nat.le_of_dvd (Nat.sub_pos_of_lt hj) hd
  omega

namespace Sound

variable {l : Ledger α} {r : RingBuffer α}

/-- A position below `lastTail` has been emptied. -/
theorem taken_of_lt_lastTail (h : Sound l r) {k : Nat} (hk : k < r.lastTail) :
    l.taken k = true := by
  cases h.taken_or_wanted (Nat.lt_of_lt_of_le hk h.lastTail_le_tail) with
  | inl ht => exact ht
  | inr hw =>
      obtain ⟨id, hw⟩ := hw
      exact absurd (h.lastTail_le_want hw) (Nat.not_le_of_lt hk)

/-- There is room up to a position within one lap of `lastTail`. -/
theorem room (h : Sound l r) {last : Nat} (hlast : last < r.lastTail + r.capacity) :
    Room l r.capacity last := by
  intro k hk
  exact h.taken_of_lt_lastTail (by omega)

/-- Nothing is stored for a position that nobody has claimed. -/
theorem stored_eq_none (h : Sound l r) {k : Nat} (hk : r.head ≤ k) : l.stored k = none := by
  cases hs : l.stored k with
  | none => rfl
  | some x =>
      have hlt := h.owner_iff.mp ⟨x.1, h.stored_owner hs⟩
      omega

/-- A position of a claim under way has not been emptied. -/
theorem taken_eq_false (h : Sound l r) {id b c k : Nat} (hc : l.claim id = some (b, c))
    (hb : b ≤ k) (hk : k < b + c) : l.taken k = false := by
  cases ht : l.taken k with
  | false => rfl
  | true => exact absurd ⟨hb, hk⟩ (h.taken_published ht hc)

/-- A published position has its item. -/
theorem exists_stored (h : Sound l r) {k : Nat} (hk : k < r.head) (hp : l.Published k) :
    ∃ id a, l.owner k = some id ∧ l.stored k = some (id, a) := by
  obtain ⟨id, ho⟩ := h.owner_iff.mpr hk
  cases h.covered_or_stored ho with
  | inl hc =>
      obtain ⟨b, c, hc, hb⟩ := hc
      exact absurd hb (hp hc)
  | inr hs =>
      obtain ⟨a, hs⟩ := hs
      exact ⟨id, a, ho, hs⟩

/-- Two positions, one with an item and one with room for it, that are not emptied share no slot. -/
theorem slot_alone (h : Sound l r) {k position : Nat} {x : Nat × α} (hne : k ≠ position)
    (hstored : l.stored k = some x) (hk : l.taken k = false) (hposition : l.taken position = false)
    (hroom : ∀ j, j < position → j % r.capacity = position % r.capacity → l.taken j = true) :
    k % r.capacity ≠ position % r.capacity := by
  intro hmod
  rcases Nat.lt_or_gt_of_ne hne with hlt | hgt
  · rw [hroom k hlt hmod] at hk
    cases hk
  · rw [h.stored_room hstored position hgt hmod.symm] at hposition
    cases hposition

end Sound

/-! ## What the steps of others keep -/

/-- Nothing is undone, and what is new begins at `head` or at `tail`. -/
structure Grows (l : Ledger α) (r : RingBuffer α) (l' : Ledger α) (r' : RingBuffer α) :
    Prop where
  capacity : r'.capacity = r.capacity
  producers : r'.producers.size = r.producers.size
  consumers : r'.consumers.size = r.consumers.size
  head : r.head ≤ r'.head
  tail : r.tail ≤ r'.tail
  claim : ∀ {id b c}, l'.claim id = some (b, c) → l.claim id = some (b, c) ∨ r.head ≤ b
  want : ∀ {id k}, l'.want id = some k → l.want id = some k ∨ r.tail ≤ k
  owner : ∀ {k id}, l.owner k = some id → l'.owner k = some id
  taken : ∀ {k}, l.taken k = true → l'.taken k = true
  stored : ∀ {k}, l.taken k = true → l'.stored k = l.stored k

/-- The state of a producer and its positions are the same. -/
structure SameProducer (id : Nat) (l : Ledger α) (r : RingBuffer α) (l' : Ledger α)
    (r' : RingBuffer α) : Prop where
  cursor : (r'.producer id).cursor = (r.producer id).cursor
  reserved : (r'.producer id).reserved = (r.producer id).reserved
  filled : (r'.producer id).filled = (r.producer id).filled
  claim : l'.claim id = l.claim id
  stored : ∀ {k}, l.owner k = some id → l'.stored k = l.stored k

/-- The state of a consumer and its position are the same. -/
structure SameConsumer (id : Nat) (l : Ledger α) (r : RingBuffer α) (l' : Ledger α)
    (r' : RingBuffer α) : Prop where
  cursor : (r'.consumer id).cursor = (r.consumer id).cursor
  want : l'.want id = l.want id
  taken : ∀ {k}, l.taker k = some id → l'.taken k = l.taken k

theorem Room.grows {l l' : Ledger α} {r r' : RingBuffer α} (g : Grows l r l' r') {last : Nat}
    (h : Room l r.capacity last) : Room l' r'.capacity last := by
  intro k hk
  exact g.taken (h k (g.capacity ▸ hk))

/-! ## What a producer knows -/

/-- The number of positions among `count` from `base` on for which something is stored. -/
def Ledger.storedCount (l : Ledger α) (base count : Nat) : Nat :=
  (List.range count).countP fun i => (l.stored (base + i)).isSome

/-- A producer between two claims. -/
def Idle (l : Ledger α) (r : RingBuffer α) (id : Nat) : Prop :=
  l.claim id = none ∧ (r.producer id).reserved = 0

/-- A producer with a claim for which it has stored nothing yet. -/
structure Fresh (l : Ledger α) (r : RingBuffer α) (id base count : Nat) : Prop where
  claim : l.claim id = some (base, count)
  pos : 0 < count
  reserved : (r.producer id).reserved = 0
  unstored : ∀ k, base ≤ k → k < base + count → l.stored k = none

/-- A producer with an open reservation, of which it has not yet counted some positions it
filled. -/
structure Filling (l : Ledger α) (r : RingBuffer α) (id uncounted : Nat) : Prop where
  pos : 0 < (r.producer id).reserved
  claim : l.claim id = some ((r.producer id).cursor, (r.producer id).reserved)
  room : Room l r.capacity ((r.producer id).cursor + (r.producer id).reserved - 1)
  filled : (r.producer id).filled + uncounted =
    l.storedCount (r.producer id).cursor (r.producer id).reserved

/-- A producer between two calls. -/
def Between (l : Ledger α) (r : RingBuffer α) (id : Nat) : Prop :=
  Idle l r id ∨ Filling l r id 0

/-- A producer that has an item for every position it has claimed. -/
def Complete (l : Ledger α) (id : Nat) : Prop :=
  ∀ b c, l.claim id = some (b, c) → ∀ k, b ≤ k → k < b + c →
    ∃ a, l.stored k = some (id, a)

/-- A bound for the wants of the first consumers. -/
def FloorOfWants (l : Ledger α) (r : RingBuffer α) (floor upTo : Nat) : Prop :=
  floor ≤ r.tail ∧ ∀ id k, id < upTo → l.want id = some k → floor ≤ k

/-- What a call of a producer knows. -/
def ProducerFits (l : Ledger α) (r : RingBuffer α) (id : Nat) : ProducerPoint α → Prop
  | .check _ => Between l r id
  | .readHead c => Idle l r id ∧ 0 < c.size ∧ c.size ≤ r.capacity
  | .announce c bound => Idle l r id ∧ 0 < c.size ∧ c.size ≤ r.capacity ∧ bound ≤ r.head
  | .claim c =>
      Idle l r id ∧ 0 < c.size ∧ c.size ≤ r.capacity ∧ (r.producer id).cursor ≤ r.head
  | .publish c base => Fresh l r id base c.size
  | .compare c base => Fresh l r id base c.size ∧ (r.producer id).cursor = base
  | .readTail c base => Fresh l r id base c.size ∧ (r.producer id).cursor = base
  | .scan c base floor next =>
      Fresh l r id base c.size ∧ (r.producer id).cursor = base ∧ FloorOfWants l r floor next
  | .keep c base floor =>
      Fresh l r id base c.size ∧ (r.producer id).cursor = base ∧
        FloorOfWants l r floor r.consumers.size
  | .write _ position => Fresh l r id position 1 ∧ Room l r.capacity position
  | .clearFilled count =>
      Fresh l r id (r.producer id).cursor count ∧
        Room l r.capacity ((r.producer id).cursor + count - 1)
  | .setReserved count =>
      Fresh l r id (r.producer id).cursor count ∧
        Room l r.capacity ((r.producer id).cursor + count - 1) ∧ (r.producer id).filled = 0
  | .checkOffset _ _ => Between l r id
  | .readBase _ offset => Filling l r id 0 ∧ offset < (r.producer id).reserved
  | .fill _ position =>
      Filling l r id 0 ∧ (r.producer id).cursor ≤ position ∧
        position < (r.producer id).cursor + (r.producer id).reserved
  | .countFilled => Filling l r id 1
  | .readReserved => Between l r id
  | .readFilled reserved => Between l r id ∧ (r.producer id).reserved = reserved
  | .clearReserved => Complete l id
  | .clearCount => Complete l id ∧ (r.producer id).reserved = 0
  | .rest => Complete l id ∧ (r.producer id).reserved = 0

/-! ## What a consumer knows -/

/-- A bound for the claims of the first producers. -/
def FloorOfClaims (l : Ledger α) (r : RingBuffer α) (floor upTo : Nat) : Prop :=
  floor ≤ r.head ∧ ∀ id b c, id < upTo → l.claim id = some (b, c) → floor ≤ b

/-- A consumer that is after a position. -/
def After (l : Ledger α) (id position : Nat) : Prop :=
  l.want id = some position ∧ l.taken position = false

/-- What a call of a consumer knows. -/
def ConsumerFits (l : Ledger α) (r : RingBuffer α) (id : Nat) : ConsumerPoint α → Prop
  | .readTail => l.want id = none
  | .announce bound => l.want id = none ∧ bound ≤ r.tail
  | .claim => l.want id = none ∧ (r.consumer id).cursor ≤ r.tail
  | .publish position => After l id position
  | .compare position => After l id position
  | .readHead position => After l id position
  | .scan position floor next => After l id position ∧ FloorOfClaims l r floor next
  | .keep position floor => After l id position ∧ FloorOfClaims l r floor r.producers.size
  | .take position =>
      After l id position ∧ position < r.head ∧
        ∀ j b c, l.claim j = some (b, c) → position < b
  | .rest position item =>
      l.want id = some position ∧ l.taken position = true ∧ l.Holds position item

/-! ## The steps of others -/

section Frame

variable {l l' : Ledger α} {r r' : RingBuffer α}

theorem FloorOfWants.grows (g : Grows l r l' r') {floor upTo : Nat}
    (h : FloorOfWants l r floor upTo) : FloorOfWants l' r' floor upTo := by
  refine ⟨Nat.le_trans h.1 g.tail, fun id k hid hw => ?_⟩
  cases g.want hw with
  | inl hold => exact h.2 id k hid hold
  | inr hnew => exact Nat.le_trans h.1 hnew

theorem FloorOfClaims.grows (g : Grows l r l' r') {floor upTo : Nat}
    (h : FloorOfClaims l r floor upTo) : FloorOfClaims l' r' floor upTo := by
  refine ⟨Nat.le_trans h.1 g.head, fun id b c hid hc => ?_⟩
  cases g.claim hc with
  | inl hold => exact h.2 id b c hid hold
  | inr hnew => exact Nat.le_trans h.1 hnew

namespace SameProducer

variable {id : Nat}

theorem idle (s : SameProducer id l r l' r') (h : Idle l r id) : Idle l' r' id :=
  ⟨s.claim.trans h.1, s.reserved.trans h.2⟩

theorem fresh (hs : Sound l r) (s : SameProducer id l r l' r') {base count : Nat}
    (h : Fresh l r id base count) : Fresh l' r' id base count where
  claim := s.claim.trans h.claim
  pos := h.pos
  reserved := s.reserved.trans h.reserved
  unstored k hb hk := (s.stored (hs.claim_owner h.claim k hb hk)).trans (h.unstored k hb hk)

theorem storedCount (hs : Sound l r) (s : SameProducer id l r l' r') {base count : Nat}
    (hc : l.claim id = some (base, count)) :
    l'.storedCount base count = l.storedCount base count := by
  unfold Ledger.storedCount
  apply List.countP_congr
  intro i hi
  rw [s.stored (hs.claim_owner hc _ (Nat.le_add_right base i)
    (Nat.add_lt_add_left (List.mem_range.mp hi) base))]

theorem filling (hs : Sound l r) (g : Grows l r l' r') (s : SameProducer id l r l' r')
    {uncounted : Nat} (h : Filling l r id uncounted) : Filling l' r' id uncounted where
  pos := by rw [s.reserved]; exact h.pos
  claim := by rw [s.claim, s.cursor, s.reserved]; exact h.claim
  room := by rw [s.cursor, s.reserved]; exact h.room.grows g
  filled := by rw [s.cursor, s.reserved, s.filled, s.storedCount hs h.claim]; exact h.filled

theorem between (hs : Sound l r) (g : Grows l r l' r') (s : SameProducer id l r l' r')
    (h : Between l r id) : Between l' r' id :=
  h.imp s.idle (s.filling hs g)

theorem complete (hs : Sound l r) (s : SameProducer id l r l' r') (h : Complete l id) :
    Complete l' id := by
  intro b c hc k hb hk
  rw [s.claim] at hc
  rw [s.stored (hs.claim_owner hc k hb hk)]
  exact h b c hc k hb hk

end SameProducer

/-- The steps of others keep what a call of a producer knows. -/
theorem ProducerFits.frame (hs : Sound l r) (g : Grows l r l' r') {id : Nat}
    (s : SameProducer id l r l' r') {p : ProducerPoint α} (h : ProducerFits l r id p) :
    ProducerFits l' r' id p := by
  cases p with
  | check c => exact s.between hs g h
  | readHead c => exact ⟨s.idle h.1, h.2.1, g.capacity ▸ h.2.2⟩
  | announce c bound =>
      exact ⟨s.idle h.1, h.2.1, g.capacity ▸ h.2.2.1, Nat.le_trans h.2.2.2 g.head⟩
  | claim c =>
      refine ⟨s.idle h.1, h.2.1, g.capacity ▸ h.2.2.1, ?_⟩
      rw [s.cursor]
      exact Nat.le_trans h.2.2.2 g.head
  | publish c base => exact s.fresh hs h
  | compare c base => exact ⟨s.fresh hs h.1, s.cursor.trans h.2⟩
  | readTail c base => exact ⟨s.fresh hs h.1, s.cursor.trans h.2⟩
  | scan c base floor next => exact ⟨s.fresh hs h.1, s.cursor.trans h.2.1, h.2.2.grows g⟩
  | keep c base floor =>
      refine ⟨s.fresh hs h.1, s.cursor.trans h.2.1, ?_⟩
      rw [g.consumers]
      exact h.2.2.grows g
  | write item position => exact ⟨s.fresh hs h.1, h.2.grows g⟩
  | clearFilled count =>
      unfold ProducerFits
      rw [s.cursor]
      exact ⟨s.fresh hs h.1, h.2.grows g⟩
  | setReserved count =>
      unfold ProducerFits
      rw [s.cursor, s.filled]
      exact ⟨s.fresh hs h.1, h.2.1.grows g, h.2.2⟩
  | checkOffset item offset => exact s.between hs g h
  | readBase item offset =>
      unfold ProducerFits
      rw [s.reserved]
      exact ⟨s.filling hs g h.1, h.2⟩
  | fill item position =>
      unfold ProducerFits
      rw [s.cursor, s.reserved]
      exact ⟨s.filling hs g h.1, h.2⟩
  | countFilled => exact s.filling hs g h
  | readReserved => exact s.between hs g h
  | readFilled reserved => exact ⟨s.between hs g h.1, s.reserved.trans h.2⟩
  | clearReserved => exact s.complete hs h
  | clearCount => exact ⟨s.complete hs h.1, s.reserved.trans h.2⟩
  | rest => exact ⟨s.complete hs h.1, s.reserved.trans h.2⟩

/-- The steps of others keep what a call of a consumer knows. -/
theorem ConsumerFits.frame (hs : Sound l r) (g : Grows l r l' r') {id : Nat}
    (s : SameConsumer id l r l' r') {p : ConsumerPoint α} (h : ConsumerFits l r id p) :
    ConsumerFits l' r' id p := by
  have hafter : ∀ {position}, After l id position → After l' id position := by
    intro position ha
    exact ⟨s.want.trans ha.1, (s.taken (hs.want_taker ha.1)).trans ha.2⟩
  cases p with
  | readTail => exact s.want.trans h
  | announce bound => exact ⟨s.want.trans h.1, Nat.le_trans h.2 g.tail⟩
  | claim =>
      refine ⟨s.want.trans h.1, ?_⟩
      rw [s.cursor]
      exact Nat.le_trans h.2 g.tail
  | publish position => exact hafter h
  | compare position => exact hafter h
  | readHead position => exact hafter h
  | scan position floor next => exact ⟨hafter h.1, h.2.grows g⟩
  | keep position floor =>
      refine ⟨hafter h.1, ?_⟩
      rw [g.producers]
      exact h.2.grows g
  | take position =>
      refine ⟨hafter h.1, Nat.lt_of_lt_of_le h.2.1 g.head, fun j b c hc => ?_⟩
      cases g.claim hc with
      | inl hold => exact h.2.2 j b c hold
      | inr hnew => exact Nat.lt_of_lt_of_le h.2.1 hnew
  | rest position item =>
      obtain ⟨hw, ht, j, a, hi, ho, hst⟩ := h
      exact ⟨s.want.trans hw, g.taken ht, j, a, hi, g.owner ho, (g.stored ht).trans hst⟩

end Frame

end Lineage.RingBuffer

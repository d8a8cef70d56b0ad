/-!
# Ring buffers

A ring buffer hands items from producers to consumers through a fixed number of slots.  Positions
are counted without end, and a position has the slot of its remainder by the capacity.  A producer
claims positions from `head`, and a consumer one from `tail`.  A role that works on a position shows
it in its cursor.  The least cursor of one side bounds how far the other side may go, and
`firstHead` and `lastTail` keep such bounds, which may be out of date but never too high.

A producer claims one position for an item, or reserves several, fills them in any order and
releases them together.

This module has the state and everything that happens at once.  The calls that may wait go step by
step and are in `RingBuffer/Call`.
-/

namespace Lineage

/-- The state of a producer. -/
structure ProducerRole where
  /-- The least position it works on. -/
  cursor : Nat
  /-- The number of positions it has reserved. -/
  reserved : Nat := 0
  /-- The number of them that are filled. -/
  filled : Nat := 0
  /-- Whether someone holds the role. -/
  held : Bool := false
  deriving DecidableEq, Repr

/-- The state of a consumer. -/
structure ConsumerRole where
  /-- The position it works on. -/
  cursor : Nat
  /-- Whether someone holds the role. -/
  held : Bool := false
  deriving DecidableEq, Repr

/-- A ring buffer for items of type `α`. -/
structure RingBuffer (α : Type) where
  /-- The number of slots. -/
  capacity : Nat
  /-- The producers. -/
  producers : Array ProducerRole
  /-- The consumers. -/
  consumers : Array ConsumerRole
  /-- The slots. -/
  slots : Array (Option α)
  /-- The position that the next producer claims. -/
  head : Nat := 0
  /-- The position that the next consumer claims. -/
  tail : Nat := 0
  /-- A bound below which every position is published. -/
  firstHead : Nat := 0
  /-- A bound below which every position is consumed. -/
  lastTail : Nat := 0
  deriving DecidableEq, Repr

namespace RingBuffer

/-- The cursor of a role that works on no position. -/
def atRest : Nat := UInt64.size - 1

/-! ## Errors -/

/-- The two kinds of roles. -/
inductive Side where
  | producer
  | consumer
  deriving DecidableEq, Repr

/-- The name of a side. -/
def Side.name : Side → String
  | .producer => "producer"
  | .consumer => "consumer"

/-- Why a ring buffer cannot be made. -/
inductive SetupError where
  /-- The capacity is no power of two. -/
  | capacity (n : Nat)
  /-- A side has no role. -/
  | noRole (side : Side)
  deriving DecidableEq, Repr

/-- The message of a setup error. -/
def SetupError.message : SetupError → String
  | .capacity n => "ring capacity must be a power of two, got " ++ toString n
  | .noRole side => "ring needs at least one " ++ side.name ++ " role"

/-- A call that breaks the rules of the ring buffer. -/
inductive Misuse where
  /-- There is no such role. -/
  | outOfRange (side : Side) (id count : Nat)
  /-- Someone holds the role already. -/
  | alreadyHeld (side : Side) (id : Nat)
  /-- An item is pushed while positions are reserved. -/
  | pushWhileReserved (id : Nat)
  /-- No position is asked for. -/
  | reserveNothing
  /-- More positions are asked for than there are slots. -/
  | reserveTooMany (count capacity : Nat)
  /-- Positions are reserved already. -/
  | reserveAgain (id : Nat)
  /-- Positions are released that are not all filled. -/
  | releaseUnfilled (id filled reserved : Nat)
  /-- A slot holds no item though its position is published. -/
  | emptySlot (position : Nat)
  deriving DecidableEq, Repr

/-- The message of a misuse. -/
def Misuse.message : Misuse → String
  | .outOfRange side id count =>
    side.name ++ " id " ++ toString id ++ " out of range 0.." ++ toString count
  | .alreadyHeld side id => side.name ++ " id " ++ toString id ++ " is already registered"
  | .pushWhileReserved id =>
    "push called while producer " ++ toString id ++ " holds a reservation"
  | .reserveNothing => "cannot reserve zero slots"
  | .reserveTooMany count capacity =>
    "cannot reserve " ++ toString count ++ " slots in a ring of " ++ toString capacity
  | .reserveAgain id => "producer " ++ toString id ++ " already holds a reservation"
  | .releaseUnfilled id filled reserved =>
    "producer " ++ toString id ++ " released " ++ toString filled ++ " of " ++
      toString reserved ++ " reserved slots"
  | .emptySlot position =>
    "ring slot " ++ toString position ++ " was published without an item"

/-! ## Making one -/

variable {α : Type}

/-- Whether a number of slots can be had.  It has to be a power of two. -/
def isCapacity (n : Nat) : Bool := 1 <<< n.log2 == n

/-- An empty ring buffer. -/
def empty (capacity producers consumers : Nat) : RingBuffer α where
  capacity := capacity
  producers := Array.replicate producers { cursor := atRest }
  consumers := Array.replicate consumers { cursor := atRest }
  slots := Array.replicate capacity none

/-- An empty ring buffer, if the numbers are in order. -/
def new (capacity producers consumers : Nat) : Except SetupError (RingBuffer α) :=
  if !isCapacity capacity then .error (.capacity capacity)
  else if producers = 0 then .error (.noRole .producer)
  else if consumers = 0 then .error (.noRole .consumer)
  else .ok (empty capacity producers consumers)

/-! ## Roles and slots -/

/-- A producer. -/
def producer (r : RingBuffer α) (id : Nat) : ProducerRole :=
  r.producers.getD id { cursor := atRest }

/-- A consumer. -/
def consumer (r : RingBuffer α) (id : Nat) : ConsumerRole :=
  r.consumers.getD id { cursor := atRest }

/-- Changes a producer. -/
def setProducer (r : RingBuffer α) (id : Nat) (p : ProducerRole) : RingBuffer α :=
  { r with producers := r.producers.setIfInBounds id p }

/-- Changes a consumer. -/
def setConsumer (r : RingBuffer α) (id : Nat) (c : ConsumerRole) : RingBuffer α :=
  { r with consumers := r.consumers.setIfInBounds id c }

/-- The item in the slot of a position. -/
def slot (r : RingBuffer α) (position : Nat) : Option α :=
  r.slots.getD (position % r.capacity) none

/-- Changes the slot of a position. -/
def setSlot (r : RingBuffer α) (position : Nat) (item : Option α) : RingBuffer α :=
  { r with slots := r.slots.setIfInBounds (position % r.capacity) item }

/-- Sets the cursor of a producer. -/
def setProducerCursor (r : RingBuffer α) (id cursor : Nat) : RingBuffer α :=
  r.setProducer id { r.producer id with cursor := cursor }

/-- Sets the cursor of a consumer. -/
def setConsumerCursor (r : RingBuffer α) (id cursor : Nat) : RingBuffer α :=
  r.setConsumer id { r.consumer id with cursor := cursor }

/-- The number of positions between the two ends. -/
def size (r : RingBuffer α) : Nat := r.head - r.tail

/-- The text that shows a ring buffer in messages. -/
def describe (r : RingBuffer α) : String :=
  "Ring \x7b capacity: " ++ toString r.capacity ++
    ", producers: " ++ toString r.producers.size ++
    ", consumers: " ++ toString r.consumers.size ++
    ", head: " ++ toString r.head ++ ", tail: " ++ toString r.tail ++ " \x7d"

/-! ## Taking and leaving a role -/

/-- Takes the role of a producer. -/
def takeProducer (r : RingBuffer α) (id : Nat) : Except Misuse (RingBuffer α) :=
  if r.producers.size ≤ id then .error (.outOfRange .producer id r.producers.size)
  else if (r.producer id).held then .error (.alreadyHeld .producer id)
  else .ok (r.setProducer id { r.producer id with held := true })

/-- Takes the role of a consumer. -/
def takeConsumer (r : RingBuffer α) (id : Nat) : Except Misuse (RingBuffer α) :=
  if r.consumers.size ≤ id then .error (.outOfRange .consumer id r.consumers.size)
  else if (r.consumer id).held then .error (.alreadyHeld .consumer id)
  else .ok (r.setConsumer id { r.consumer id with held := true })

/-- Leaves the role of a producer.  What it has reserved stays reserved. -/
def leaveProducer (r : RingBuffer α) (id : Nat) : RingBuffer α :=
  r.setProducer id { r.producer id with held := false }

/-- Leaves the role of a consumer. -/
def leaveConsumer (r : RingBuffer α) (id : Nat) : RingBuffer α :=
  r.setConsumer id { r.consumer id with held := false }

/-! ## The views -/

@[simp] theorem producers_size_setProducer (r : RingBuffer α) (id : Nat) (p : ProducerRole) :
    (r.setProducer id p).producers.size = r.producers.size := by simp [setProducer]

@[simp] theorem consumers_size_setConsumer (r : RingBuffer α) (id : Nat) (c : ConsumerRole) :
    (r.setConsumer id c).consumers.size = r.consumers.size := by simp [setConsumer]

theorem producer_setProducer (r : RingBuffer α) {id : Nat} (h : id < r.producers.size)
    (p : ProducerRole) (id' : Nat) :
    (r.setProducer id p).producer id' = if id' = id then p else r.producer id' := by
  unfold producer setProducer
  by_cases h' : id' = id
  · simp [h', h]
  · simp [Ne.symm h', h']

theorem consumer_setConsumer (r : RingBuffer α) {id : Nat} (h : id < r.consumers.size)
    (c : ConsumerRole) (id' : Nat) :
    (r.setConsumer id c).consumer id' = if id' = id then c else r.consumer id' := by
  unfold consumer setConsumer
  by_cases h' : id' = id
  · simp [h', h]
  · simp [Ne.symm h', h']

theorem slot_setSlot (r : RingBuffer α) {p : Nat} (h : p % r.capacity < r.slots.size)
    (item : Option α) (q : Nat) :
    (r.setSlot p item).slot q =
      if q % r.capacity = p % r.capacity then item else r.slot q := by
  unfold slot setSlot
  by_cases h' : q % r.capacity = p % r.capacity
  · simp [h', h]
  · simp [Ne.symm h', h']

end RingBuffer

end Lineage

import Lineage.RingBuffer.Basic

/-!
# Calls on a ring buffer, step by step

A call of a producer or a consumer is a sequence of steps, each of which reads or writes one
counter, cursor or slot.  Steps of different calls may come in any order.  A *point* says where a
call stands and what it remembers, and `stepProducer` and `stepConsumer` take one step from a point.

A call that claims positions shows a lower bound in its cursor before it claims, so nobody takes it
to be at rest in between.  Then it waits until the other side has gone far enough.  Each pass of the
wait compares with the kept bound and, if that does not do, computes the bound anew from the cursors
of the other side and keeps it.

`produce` and `consume` run one call alone.  They give nothing when the call would wait for ever,
which shows after one pass, as nothing else changes.
-/

namespace Lineage.RingBuffer

variable {α : Type}

/-! ## Calls and outcomes -/

/-- What a producer claims positions for. -/
inductive Claim (α : Type) where
  /-- One item. -/
  | push (item : α)
  /-- A number of items to come. -/
  | reserve (count : Nat)
  deriving DecidableEq, Repr

/-- The number of positions. -/
def Claim.size : Claim α → Nat
  | .push _ => 1
  | .reserve count => count

/-- A call of a producer. -/
inductive ProducerCall (α : Type) where
  /-- Hands over an item. -/
  | push (item : α)
  /-- Reserves positions. -/
  | reserve (count : Nat)
  /-- Fills a reserved position, counted from the first one. -/
  | fill (item : α) (offset : Nat)
  /-- Releases the reserved positions. -/
  | release
  deriving DecidableEq, Repr

/-- How a call ends. -/
inductive Outcome (α : Type) where
  /-- It is done. -/
  | done
  /-- It filled a position, or there was no such position. -/
  | filled (ok : Bool)
  /-- It took an item. -/
  | item (a : α)
  /-- It broke the rules. -/
  | misuse (m : Misuse)
  deriving DecidableEq, Repr

/-- What comes after a step: the next point, or the end of the call. -/
inductive Progress (β α : Type) where
  /-- The call goes on. -/
  | next (point : β)
  /-- The call has ended. -/
  | ended (outcome : Outcome α)
  deriving DecidableEq, Repr

/-! ## Producers -/

/-- Where a call of a producer stands. -/
inductive ProducerPoint (α : Type) where
  /-- Before it checks that nothing is reserved. -/
  | check (c : Claim α)
  /-- Before it reads `head`. -/
  | readHead (c : Claim α)
  /-- Before it shows a lower bound of what it will claim. -/
  | announce (c : Claim α) (bound : Nat)
  /-- Before it claims. -/
  | claim (c : Claim α)
  /-- Before it shows the first position it has claimed. -/
  | publish (c : Claim α) (base : Nat)
  /-- Before it compares its last position with `lastTail`. -/
  | compare (c : Claim α) (base : Nat)
  /-- Before it reads `tail`. -/
  | readTail (c : Claim α) (base : Nat)
  /-- Before it reads the cursor of the next consumer. -/
  | scan (c : Claim α) (base floor next : Nat)
  /-- Before it keeps the bound. -/
  | keep (c : Claim α) (base floor : Nat)
  /-- Before it writes its item. -/
  | write (item : α) (position : Nat)
  /-- Before it sets the number of filled positions to zero. -/
  | clearFilled (count : Nat)
  /-- Before it sets the number of reserved positions. -/
  | setReserved (count : Nat)
  /-- Before it checks that an offset is reserved. -/
  | checkOffset (item : α) (offset : Nat)
  /-- Before it reads the first reserved position. -/
  | readBase (item : α) (offset : Nat)
  /-- Before it writes a reserved position. -/
  | fill (item : α) (position : Nat)
  /-- Before it counts a filled position. -/
  | countFilled
  /-- Before it reads the number of reserved positions. -/
  | readReserved
  /-- Before it checks that all of them are filled. -/
  | readFilled (reserved : Nat)
  /-- Before it gives up what it has reserved. -/
  | clearReserved
  /-- Before it sets the number of filled positions to zero at the end. -/
  | clearCount
  /-- Before it comes to rest. -/
  | rest
  deriving DecidableEq, Repr

/-- Where a call of a producer starts. -/
def ProducerCall.start : ProducerCall α → ProducerPoint α
  | .push item => .check (.push item)
  | .reserve count => .check (.reserve count)
  | .fill item offset => .checkOffset item offset
  | .release => .readReserved

/-- Checks that a producer may claim. -/
def checkClaim (r : RingBuffer α) (id : Nat) : Claim α → Except Misuse Unit
  | .push _ =>
    if (r.producer id).reserved ≠ 0 then .error (.pushWhileReserved id) else .ok ()
  | .reserve count =>
    if count = 0 then .error .reserveNothing
    else if r.capacity < count then .error (.reserveTooMany count r.capacity)
    else if (r.producer id).reserved ≠ 0 then .error (.reserveAgain id)
    else .ok ()

/-- Where a claim goes on when there is room for it. -/
def Claim.granted (base : Nat) : Claim α → ProducerPoint α
  | .push item => .write item base
  | .reserve count => .clearFilled count

/-- One step of a producer. -/
def stepProducer (r : RingBuffer α) (id : Nat) :
    ProducerPoint α → RingBuffer α × Progress (ProducerPoint α) α
  | .check c =>
    match r.checkClaim id c with
    | .error m => (r, .ended (.misuse m))
    | .ok () => (r, .next (.readHead c))
  | .readHead c => (r, .next (.announce c r.head))
  | .announce c bound => (r.setProducerCursor id bound, .next (.claim c))
  | .claim c => ({ r with head := r.head + c.size }, .next (.publish c r.head))
  | .publish c base => (r.setProducerCursor id base, .next (.compare c base))
  | .compare c base =>
    if r.lastTail + r.capacity ≤ base + c.size - 1 then (r, .next (.readTail c base))
    else (r, .next (c.granted base))
  | .readTail c base => (r, .next (.scan c base r.tail 0))
  | .scan c base floor next =>
    if next < r.consumers.size then
      (r, .next (.scan c base (min floor (r.consumer next).cursor) (next + 1)))
    else (r, .next (.keep c base floor))
  | .keep c base floor => ({ r with lastTail := floor }, .next (.compare c base))
  | .write item position => (r.setSlot position (some item), .next .rest)
  | .clearFilled count =>
    (r.setProducer id { r.producer id with filled := 0 }, .next (.setReserved count))
  | .setReserved count =>
    (r.setProducer id { r.producer id with reserved := count }, .ended .done)
  | .checkOffset item offset =>
    if (r.producer id).reserved ≤ offset then (r, .ended (.filled false))
    else (r, .next (.readBase item offset))
  | .readBase item offset => (r, .next (.fill item ((r.producer id).cursor + offset)))
  | .fill item position =>
    let old := r.slot position
    (r.setSlot position (some item),
      if old.isNone then .next .countFilled else .ended (.filled true))
  | .countFilled =>
    (r.setProducer id { r.producer id with filled := (r.producer id).filled + 1 },
      .ended (.filled true))
  | .readReserved => (r, .next (.readFilled (r.producer id).reserved))
  | .readFilled reserved =>
    let filled := (r.producer id).filled
    if filled ≠ reserved then (r, .ended (.misuse (.releaseUnfilled id filled reserved)))
    else (r, .next .clearReserved)
  | .clearReserved =>
    (r.setProducer id { r.producer id with reserved := 0 }, .next .clearCount)
  | .clearCount => (r.setProducer id { r.producer id with filled := 0 }, .next .rest)
  | .rest => (r.setProducerCursor id atRest, .ended .done)

/-! ## Consumers -/

/-- Where a call of a consumer stands. -/
inductive ConsumerPoint (α : Type) where
  /-- Before it reads `tail`. -/
  | readTail
  /-- Before it shows a lower bound of what it will claim. -/
  | announce (bound : Nat)
  /-- Before it claims. -/
  | claim
  /-- Before it shows the position it has claimed. -/
  | publish (position : Nat)
  /-- Before it compares its position with `firstHead`. -/
  | compare (position : Nat)
  /-- Before it reads `head`. -/
  | readHead (position : Nat)
  /-- Before it reads the cursor of the next producer. -/
  | scan (position floor next : Nat)
  /-- Before it keeps the bound. -/
  | keep (position floor : Nat)
  /-- Before it takes its item. -/
  | take (position : Nat)
  /-- Before it comes to rest. -/
  | rest (position : Nat) (item : Option α)
  deriving DecidableEq, Repr

/-- One step of a consumer. -/
def stepConsumer (r : RingBuffer α) (id : Nat) :
    ConsumerPoint α → RingBuffer α × Progress (ConsumerPoint α) α
  | .readTail => (r, .next (.announce r.tail))
  | .announce bound => (r.setConsumerCursor id bound, .next .claim)
  | .claim => ({ r with tail := r.tail + 1 }, .next (.publish r.tail))
  | .publish position => (r.setConsumerCursor id position, .next (.compare position))
  | .compare position =>
    if r.firstHead ≤ position then (r, .next (.readHead position))
    else (r, .next (.take position))
  | .readHead position => (r, .next (.scan position r.head 0))
  | .scan position floor next =>
    if next < r.producers.size then
      (r, .next (.scan position (min floor (r.producer next).cursor) (next + 1)))
    else (r, .next (.keep position floor))
  | .keep position floor => ({ r with firstHead := floor }, .next (.compare position))
  | .take position => (r.setSlot position none, .next (.rest position (r.slot position)))
  | .rest position item =>
    (r.setConsumerCursor id atRest,
      .ended (match item with
        | some a => .item a
        | none => .misuse (.emptySlot position)))

/-! ## One call at a time -/

/-- Steps of a producer to the end of its call, at most `fuel` of them. -/
def runProducer (id : Nat) :
    Nat → RingBuffer α → ProducerPoint α → Option (RingBuffer α × Outcome α)
  | 0, _, _ => none
  | fuel + 1, r, p =>
    match r.stepProducer id p with
    | (r, .next p) => runProducer id fuel r p
    | (r, .ended o) => some (r, o)

/-- Steps of a consumer to the end of its call, at most `fuel` of them. -/
def runConsumer (id : Nat) :
    Nat → RingBuffer α → ConsumerPoint α → Option (RingBuffer α × Outcome α)
  | 0, _, _ => none
  | fuel + 1, r, p =>
    match r.stepConsumer id p with
    | (r, .next p) => runConsumer id fuel r p
    | (r, .ended o) => some (r, o)

/-- More steps than a call takes that waits for one pass at most. -/
def onePass (r : RingBuffer α) : Nat := r.producers.size + r.consumers.size + 16

/-- Runs a call of a producer alone, if it ends. -/
def produce (r : RingBuffer α) (id : Nat) (c : ProducerCall α) :
    Option (RingBuffer α × Outcome α) :=
  runProducer id r.onePass r c.start

/-- Takes an item alone, if there is one to come. -/
def consume (r : RingBuffer α) (id : Nat) : Option (RingBuffer α × Outcome α) :=
  runConsumer id r.onePass r .readTail

end Lineage.RingBuffer

import Lineage.RingBuffer.Machine

/-!
# A crew at work on a ring buffer

Some producers with a list of calls each, and some consumers that together take a number of items.
They hold their roles (`takeEach`) and take turns, and a turn is one step of a call (`Crew.turn`),
so calls of different workers overlap.
-/

namespace Lineage.RingBuffer

variable {α : Type}

/-- A producer and what it has to do. -/
structure Supplier (α : Type) where
  /-- Its role. -/
  id : Nat
  /-- Where its call stands, if one is under way. -/
  point : Option (ProducerPoint α) := none
  /-- The calls to come. -/
  calls : List (ProducerCall α)

/-- A consumer and what it has taken. -/
structure Taker (α : Type) where
  /-- Its role. -/
  id : Nat
  /-- Where its call stands, if one is under way. -/
  point : Option (ConsumerPoint α) := none
  /-- The items it has taken, last one first. -/
  taken : List α := []

/-- A crew. -/
structure Crew (α : Type) where
  /-- The ring buffer they share. -/
  ring : RingBuffer α
  /-- The number of items that nobody has set out to take. -/
  wanted : Nat
  /-- The producers. -/
  suppliers : List (Supplier α)
  /-- The consumers. -/
  takers : List (Taker α)

/-! ## Roles -/

/-- The roles of a ring buffer. -/
def roles (r : RingBuffer α) : List Role :=
  (List.range r.producers.size).map (Role.mk .producer) ++
    (List.range r.consumers.size).map (Role.mk .consumer)

/-- The ring buffer when someone has taken some roles, as far as they were free. -/
def takeEach (r : RingBuffer α) : List Role → RingBuffer α
  | [] => r
  | role :: rest =>
    match r.take role with
    | .ok r => takeEach r rest
    | .error _ => takeEach r rest

/-! ## Calls for a list of items -/

/-- The items with the offsets from `n` on, last one first. -/
def fillsDown : Nat → List α → List (ProducerCall α)
  | _, [] => []
  | n, item :: items => fillsDown (n + 1) items ++ [.fill item n]

/-- The calls that hand over some items together. -/
def groupCalls (items : List α) : List (ProducerCall α) :=
  .reserve items.length :: (fillsDown 0 items ++ [.release])

/-- The calls that hand over items in groups of `size`, at most `fuel` groups. -/
def groupedCalls (size : Nat) : Nat → List α → List (ProducerCall α)
  | 0, _ => []
  | _, [] => []
  | fuel + 1, items =>
    groupCalls (items.take size) ++ groupedCalls size fuel (items.drop size)

/-- The calls that hand over items, one at a time or in groups. -/
def callsFor (group : Nat) (items : List α) : List (ProducerCall α) :=
  if group ≤ 1 then items.map .push else groupedCalls group items.length items

/-! ## Turns -/

/-- One step of a producer. -/
def Supplier.turn (r : RingBuffer α) (s : Supplier α) : RingBuffer α × Supplier α :=
  match s.point, s.calls with
  | none, [] => (r, s)
  | none, call :: calls => (r, { s with point := some call.start, calls := calls })
  | some p, _ =>
    match r.stepProducer s.id p with
    | (r, .next p) => (r, { s with point := some p })
    | (r, .ended _) => (r, { s with point := none })

/-- One step of a consumer, which sets out to take an item if one is wanted. -/
def Taker.turn (r : RingBuffer α) (wanted : Nat) (t : Taker α) :
    RingBuffer α × Nat × Taker α :=
  match t.point with
  | none =>
    match wanted with
    | 0 => (r, 0, t)
    | n + 1 => (r, n, { t with point := some .readTail })
  | some p =>
    match r.stepConsumer t.id p with
    | (r, .next p) => (r, wanted, { t with point := some p })
    | (r, .ended (.item a)) => (r, wanted, { t with point := none, taken := a :: t.taken })
    | (r, .ended _) => (r, wanted, { t with point := none })

/-- One step of each producer. -/
def supplierTurns (r : RingBuffer α) : List (Supplier α) → RingBuffer α × List (Supplier α)
  | [] => (r, [])
  | s :: rest =>
    let (r, s) := s.turn r
    let (r, rest) := supplierTurns r rest
    (r, s :: rest)

/-- One step of each consumer. -/
def takerTurns (r : RingBuffer α) (wanted : Nat) :
    List (Taker α) → RingBuffer α × Nat × List (Taker α)
  | [] => (r, wanted, [])
  | t :: rest =>
    let (r, wanted, t) := t.turn r wanted
    let (r, wanted, rest) := takerTurns r wanted rest
    (r, wanted, t :: rest)

namespace Crew

/-- One step of each worker. -/
def turn (c : Crew α) : Crew α :=
  let (ring, suppliers) := supplierTurns c.ring c.suppliers
  let (ring, wanted, takers) := takerTurns ring c.wanted c.takers
  ⟨ring, wanted, suppliers, takers⟩

/-- Whether nobody has anything left to do. -/
def isDone (c : Crew α) : Bool :=
  c.wanted == 0 && c.suppliers.all (fun s => s.point.isNone && s.calls.isEmpty) &&
    c.takers.all fun t => t.point.isNone

/-- Turns until nobody has anything left to do, at most `fuel` of them. -/
def run : Nat → Crew α → Crew α
  | 0, c => c
  | fuel + 1, c => if c.isDone then c else run fuel c.turn

/-- The items that producer `id` of `count` hands over, if each one hands over `each`. -/
def share (count each id : Nat) : List Nat := (List.range each).map fun n => n * count + id

/-- A crew in which each producer hands over its share in groups, and the consumers take it all. -/
def assemble (ring : RingBuffer Nat) (group each : Nat) : Crew Nat :=
  let count := ring.producers.size
  { ring := takeEach ring ring.roles
    wanted := count * each
    suppliers := (List.range count).map fun id =>
      { id := id, calls := callsFor group (share count each id) }
    takers := (List.range ring.consumers.size).map fun id => { id := id } }

/-- The turns that such a crew is given.  It leaves off before when nobody has anything left to do
(`run`). -/
def turnsFor (ring : RingBuffer Nat) (each : Nat) : Nat :=
  (2 * ring.producers.size * each + 4) * 4 * ring.onePass

/-- The crew after the turns it is given. -/
def work (ring : RingBuffer Nat) (group each : Nat) : Crew Nat :=
  run (turnsFor ring each) (assemble ring group each)

/-- The items that were taken, ascending. -/
def items (c : Crew Nat) : List Nat :=
  (c.takers.flatMap Taker.taken).mergeSort fun a b => a ≤ b

/-- Whether every consumer got the items of each producer in ascending order. -/
def inOrder (c : Crew Nat) : Bool :=
  let count := c.suppliers.length
  c.takers.all fun t => c.suppliers.all fun s =>
    let own := t.taken.filter fun a => a % count == s.id
    own.zip (own.drop 1) |>.all fun (later, earlier) => earlier < later

end Crew

end Lineage.RingBuffer

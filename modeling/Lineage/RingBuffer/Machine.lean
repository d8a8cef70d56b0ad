import Lineage.RingBuffer.Call

/-!
# A ring buffer with callers side by side

Callers make calls on one ring buffer, and their steps come in any order (`Machine.Step`).  Each
step leaves a *mark* of what it did to the positions, and a run is known by its marks
(`Machine.Run`).

The rules say that one caller at a time uses a role.  `Sharing.turns` is a machine that keeps them.
In `Sharing.free` several callers may use a role at the same time.
-/

namespace Lineage.RingBuffer

variable {α : Type}

/-! ## Callers and marks -/

/-- A role of a ring buffer. -/
structure Role where
  /-- Its side. -/
  side : Side
  /-- Its number. -/
  id : Nat
  deriving DecidableEq, Repr

/-- Whether someone holds a role. -/
def isHeld (r : RingBuffer α) (role : Role) : Bool :=
  match role.side with
  | .producer => (r.producer role.id).held
  | .consumer => (r.consumer role.id).held

/-- Takes a role. -/
def take (r : RingBuffer α) (role : Role) : Except Misuse (RingBuffer α) :=
  match role.side with
  | .producer => r.takeProducer role.id
  | .consumer => r.takeConsumer role.id

/-- Leaves a role. -/
def leave (r : RingBuffer α) (role : Role) : RingBuffer α :=
  match role.side with
  | .producer => r.leaveProducer role.id
  | .consumer => r.leaveConsumer role.id

/-- A call under way. -/
inductive Activity (α : Type) where
  /-- One of a producer. -/
  | producing (id : Nat) (point : ProducerPoint α)
  /-- One of a consumer. -/
  | consuming (id : Nat) (point : ConsumerPoint α)
  deriving DecidableEq, Repr

/-- The role of a call. -/
def Activity.role : Activity α → Role
  | .producing id _ => ⟨.producer, id⟩
  | .consuming id _ => ⟨.consumer, id⟩

/-- What a step does to the positions. -/
inductive Mark (α : Type) where
  /-- Nothing. -/
  | silent
  /-- A producer claims some positions. -/
  | claimed (id base count : Nat)
  /-- A producer writes an item. -/
  | stored (id position : Nat) (item : α)
  /-- A producer shows that it works on no position any more. -/
  | published (id : Nat)
  /-- A consumer claims a position. -/
  | wanted (id position : Nat)
  /-- A consumer empties the slot of its position. -/
  | took (id position : Nat) (item : Option α)
  /-- A consumer shows that it works on no position any more, and its call ends. -/
  | returned (id position : Nat) (item : Option α)
  deriving DecidableEq, Repr

/-- The mark of a producer's next step. -/
def producerMark (r : RingBuffer α) (id : Nat) : ProducerPoint α → Mark α
  | .claim c => .claimed id r.head c.size
  | .write item position => .stored id position item
  | .fill item position => .stored id position item
  | .rest => .published id
  | _ => .silent

/-- The mark of a consumer's next step. -/
def consumerMark (r : RingBuffer α) (id : Nat) : ConsumerPoint α → Mark α
  | .claim => .wanted id r.tail
  | .take position => .took id position (r.slot position)
  | .rest position item => .returned id position item
  | _ => .silent

/-- The mark of a call's next step. -/
def mark (r : RingBuffer α) : Activity α → Mark α
  | .producing id p => r.producerMark id p
  | .consuming id p => r.consumerMark id p

/-- One step of a call, which is over if nothing is left of it. -/
def stepActivity (r : RingBuffer α) : Activity α → RingBuffer α × Option (Activity α)
  | .producing id p =>
    match r.stepProducer id p with
    | (r, .next p) => (r, some (.producing id p))
    | (r, .ended _) => (r, none)
  | .consuming id p =>
    match r.stepConsumer id p with
    | (r, .next p) => (r, some (.consuming id p))
    | (r, .ended _) => (r, none)

/-- What a call has brought. -/
def Outcome.items : Outcome α → List α
  | .item a => [a]
  | _ => []

/-- The outcome of a call whose next step ends it. -/
def outcome? (r : RingBuffer α) : Activity α → Option (Outcome α)
  | .producing id p =>
    match (r.stepProducer id p).2 with
    | .next _ => none
    | .ended o => some o
  | .consuming id p =>
    match (r.stepConsumer id p).2 with
    | .next _ => none
    | .ended o => some o

/-! ## The machine -/

/-- A ring buffer and the calls under way, one at most for each caller. -/
structure Machine (α : Type) where
  /-- The ring buffer. -/
  ring : RingBuffer α
  /-- The call of each caller. -/
  calls : Nat → Option (Activity α)

/-- Whether callers share roles. -/
inductive Sharing where
  /-- One caller at a time uses a role. -/
  | turns
  /-- Several callers may use a role at the same time. -/
  | free
  deriving DecidableEq, Repr

namespace Machine

/-- The machine with another call of one caller. -/
def setCall (m : Machine α) (caller : Nat) (a : Option (Activity α)) : Machine α :=
  { m with calls := fun c => if c = caller then a else m.calls c }

/-- The machine when a call of one caller goes one step on. -/
def advance (m : Machine α) (caller : Nat) (a : Activity α) : Machine α :=
  { m.setCall caller (m.ring.stepActivity a).2 with ring := (m.ring.stepActivity a).1 }

/-- A caller begins a call or goes one step on with its own, and how that ends, if it does. -/
def work (m : Machine α) (caller : Nat) (start : Activity α) :
    Machine α × Option (Outcome α) :=
  match m.calls caller with
  | none => (m.setCall caller (some start), none)
  | some a => (m.advance caller a, m.ring.outcome? a)

/-- Whether no call of a role is under way. -/
def IsFree (m : Machine α) (role : Role) : Prop :=
  ∀ caller a, m.calls caller = some a → a.role ≠ role

/-- Whether a caller may start a call of a role. -/
def MayStart (sharing : Sharing) (m : Machine α) (caller : Nat) (role : Role) : Prop :=
  m.calls caller = none ∧ m.ring.isHeld role = true ∧ (sharing = .turns → m.IsFree role)

/-- One step of a machine. -/
inductive Step (sharing : Sharing) : Machine α → Mark α → Machine α → Prop where
  /-- Someone takes the role of a producer. -/
  | takeProducer {m : Machine α} {id : Nat} {r : RingBuffer α} :
      m.ring.takeProducer id = .ok r → Step sharing m .silent { m with ring := r }
  /-- Someone takes the role of a consumer. -/
  | takeConsumer {m : Machine α} {id : Nat} {r : RingBuffer α} :
      m.ring.takeConsumer id = .ok r → Step sharing m .silent { m with ring := r }
  /-- Someone leaves the role of a producer between two calls. -/
  | leaveProducer {m : Machine α} {id : Nat} :
      m.ring.isHeld ⟨.producer, id⟩ = true → m.IsFree ⟨.producer, id⟩ →
      Step sharing m .silent { m with ring := m.ring.leaveProducer id }
  /-- Someone leaves the role of a consumer between two calls. -/
  | leaveConsumer {m : Machine α} {id : Nat} :
      m.ring.isHeld ⟨.consumer, id⟩ = true → m.IsFree ⟨.consumer, id⟩ →
      Step sharing m .silent { m with ring := m.ring.leaveConsumer id }
  /-- A caller starts a call of a producer. -/
  | produce {m : Machine α} {caller id : Nat} (call : ProducerCall α) :
      MayStart sharing m caller ⟨.producer, id⟩ →
      Step sharing m .silent (m.setCall caller (some (.producing id call.start)))
  /-- A caller starts a call of a consumer. -/
  | consume {m : Machine α} {caller id : Nat} :
      MayStart sharing m caller ⟨.consumer, id⟩ →
      Step sharing m .silent (m.setCall caller (some (.consuming id .readTail)))
  /-- A call goes one step on. -/
  | advance {m : Machine α} {caller : Nat} {a : Activity α} :
      m.calls caller = some a →
      Step sharing m (m.ring.mark a)
        { m.setCall caller (m.ring.stepActivity a).2 with ring := (m.ring.stepActivity a).1 }

/-- A run, with the marks of its steps in order. -/
inductive Run (sharing : Sharing) : Machine α → List (Mark α) → Machine α → Prop where
  /-- No step. -/
  | none {m : Machine α} : Run sharing m [] m
  /-- A run and one more step. -/
  | snoc {m m' m'' : Machine α} {marks : List (Mark α)} {mark : Mark α} :
      Run sharing m marks m' → Step sharing m' mark m'' → Run sharing m (marks ++ [mark]) m''

/-- Whether a machine can be reached from a new ring buffer. -/
def Reachable (sharing : Sharing) (m : Machine α) : Prop :=
  ∃ (capacity producers consumers : Nat) (r : RingBuffer α) (marks : List (Mark α)),
    RingBuffer.new capacity producers consumers = .ok r ∧
      Run sharing ⟨r, fun _ => none⟩ marks m

end Machine

end Lineage.RingBuffer

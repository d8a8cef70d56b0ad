import Lineage.Proofs.RingBuffer.Waiting

/-!
# Calls that run alone

A call that runs alone sees nothing change but by its own steps.  So a single pass of its wait loop
computes the bound that counts, and the call goes on after it or stays in the loop for ever.  The
kept bounds may be out of date.  As long as they are not too high they decide nothing: a bound that
lets the call through is one that the pass would let through as well.

`Reaches` says that a call gets from one point to another, and `Waits` that it never ends.  What
becomes of a producer in its wait loop is in `reaches_granted` and `waits_for_room`, and of a
consumer in `reaches_take` and `waits_for_item`.
-/

namespace Lineage.RingBuffer

variable {α β : Type}

/-! ## Steps in a row -/

section Runs

variable {run : Nat → RingBuffer α → β → Option (RingBuffer α × Outcome α)}
  {r r' r'' : RingBuffer α}
  {p p' p'' : β} {n k fuel : Nat} {x : RingBuffer α × Outcome α}

/-- A call that runs alone gets from one point to another in at most `n` steps. -/
def Reaches (run : Nat → RingBuffer α → β → Option (RingBuffer α × Outcome α)) (n : Nat)
    (r : RingBuffer α) (p : β) (r' : RingBuffer α) (p' : β) : Prop :=
  ∃ k, k ≤ n ∧ ∀ fuel, run (fuel + k) r p = run fuel r' p'

/-- A call that runs alone never ends. -/
def Waits (run : Nat → RingBuffer α → β → Option (RingBuffer α × Outcome α))
    (r : RingBuffer α) (p : β) : Prop :=
  ∀ fuel, run fuel r p = none

theorem Reaches.trans (h : Reaches run n r p r' p') (h' : Reaches run k r' p' r'' p'') :
    Reaches run (n + k) r p r'' p'' := by
  obtain ⟨i, hi, h⟩ := h
  obtain ⟨j, hj, h'⟩ := h'
  refine ⟨j + i, by omega, fun fuel => ?_⟩
  rw [← Nat.add_assoc, h, h']

theorem Reaches.mono (h : Reaches run n r p r' p') (hle : n ≤ k) : Reaches run k r p r' p' := by
  obtain ⟨i, hi, h⟩ := h
  exact ⟨i, Nat.le_trans hi hle, h⟩

/-- A call ends if it gets to a point from which it ends, and there is fuel for both. -/
theorem Reaches.ends (h : Reaches run n r p r' p') (hend : ∀ fuel, run (fuel + k) r' p' = some x)
    (hfuel : n + k ≤ fuel) : run fuel r p = some x := by
  obtain ⟨i, hi, h⟩ := h
  rw [show fuel = (fuel - i - k) + k + i by omega, h, hend]

/-- A call waits for ever if it gets to a point where it does, and more fuel does not change its
end. -/
theorem Reaches.waits
    (hmono : ∀ {fuel x}, run fuel r p = some x → ∀ more, run (fuel + more) r p = some x)
    (h : Reaches run n r p r' p') (hwaits : Waits run r' p') : Waits run r p := by
  obtain ⟨i, -, h⟩ := h
  intro fuel
  cases hrun : run fuel r p with
  | none => rfl
  | some x =>
      have hmore := hmono hrun i
      rw [h, hwaits] at hmore
      cases hmore

end Runs

theorem runProducer_mono {id fuel : Nat} {r : RingBuffer α} {p : ProducerPoint α}
    {x : RingBuffer α × Outcome α} (h : runProducer id fuel r p = some x) (more : Nat) :
    runProducer id (fuel + more) r p = some x := by
  induction fuel generalizing r p with
  | zero => cases h
  | succ fuel ih =>
      rw [Nat.add_right_comm]
      simp only [runProducer] at h ⊢
      split at h
      · exact ih h
      · exact h

theorem runConsumer_mono {id fuel : Nat} {r : RingBuffer α} {p : ConsumerPoint α}
    {x : RingBuffer α × Outcome α} (h : runConsumer id fuel r p = some x) (more : Nat) :
    runConsumer id (fuel + more) r p = some x := by
  induction fuel generalizing r p with
  | zero => cases h
  | succ fuel ih =>
      rw [Nat.add_right_comm]
      simp only [runConsumer] at h ⊢
      split at h
      · exact ih h
      · exact h

theorem reaches_of_stepProducer {id : Nat} {r r' : RingBuffer α} {p p' : ProducerPoint α}
    (h : r.stepProducer id p = (r', .next p')) : Reaches (runProducer id) 1 r p r' p' :=
  ⟨1, Nat.le_refl 1, fun fuel => by simp only [runProducer, h]⟩

theorem reaches_of_stepConsumer {id : Nat} {r r' : RingBuffer α} {p p' : ConsumerPoint α}
    (h : r.stepConsumer id p = (r', .next p')) : Reaches (runConsumer id) 1 r p r' p' :=
  ⟨1, Nat.le_refl 1, fun fuel => by simp only [runConsumer, h]⟩

/-! ## Passes of a wait loop -/

section Passes

variable (id : Nat) (r : RingBuffer α)

/-- A producer reads the cursors of the consumers that are left. -/
theorem reaches_keep_wants (c : Claim α) (base floor next : Nat) :
    Reaches (runProducer id) (r.consumers.size - next + 1) r (.scan c base floor next) r
      (.keep c base (floorOf floor ((r.consumers.toList.map ConsumerRole.cursor).drop next))) := by
  induction hleft : r.consumers.size - next generalizing floor next with
  | zero =>
      rw [floorOf_drop_of_le (by simpa using Nat.le_of_sub_eq_zero hleft)]
      refine reaches_of_stepProducer ?_
      simp [stepProducer, Nat.not_lt.mpr (Nat.le_of_sub_eq_zero hleft)]
  | succ left ih =>
      have hnext : next < r.consumers.size := by omega
      rw [floorOf_drop_of_lt (by simpa using hnext)]
      have hstep : r.stepProducer id (.scan c base floor next) =
          (r, .next (.scan c base (min floor (r.consumer next).cursor) (next + 1))) := by
        simp [stepProducer, hnext]
      have hrest := ih (min floor (r.consumer next).cursor) (next + 1) (by omega)
      have hread :=
        ((reaches_of_stepProducer hstep).trans hrest).mono (k := left + 1 + 1) (by omega)
      simpa [consumer, hnext] using hread

/-- A consumer reads the cursors of the producers that are left. -/
theorem reaches_keep_claims (position floor next : Nat) :
    Reaches (runConsumer id) (r.producers.size - next + 1) r (.scan position floor next) r
      (.keep position (floorOf floor
        ((r.producers.toList.map ProducerRole.cursor).drop next))) := by
  induction hleft : r.producers.size - next generalizing floor next with
  | zero =>
      rw [floorOf_drop_of_le (by simpa using Nat.le_of_sub_eq_zero hleft)]
      refine reaches_of_stepConsumer ?_
      simp [stepConsumer, Nat.not_lt.mpr (Nat.le_of_sub_eq_zero hleft)]
  | succ left ih =>
      have hnext : next < r.producers.size := by omega
      rw [floorOf_drop_of_lt (by simpa using hnext)]
      have hstep : r.stepConsumer id (.scan position floor next) =
          (r, .next (.scan position (min floor (r.producer next).cursor) (next + 1))) := by
        simp [stepConsumer, hnext]
      have hrest := ih (min floor (r.producer next).cursor) (next + 1) (by omega)
      have hread :=
        ((reaches_of_stepConsumer hstep).trans hrest).mono (k := left + 1 + 1) (by omega)
      simpa [producer, hnext] using hread

/-- A producer that finds no room by the kept bound computes it anew. -/
theorem reaches_pass_wants {c : Claim α} {base : Nat}
    (h : r.lastTail + r.capacity ≤ base + c.size - 1) :
    Reaches (runProducer id) (r.consumers.size + 4) r (.compare c base)
      { r with lastTail := r.wantFloor } (.compare c base) := by
  have hcompare : Reaches (runProducer id) 1 r (.compare c base) r (.readTail c base) :=
    reaches_of_stepProducer (by simp [stepProducer, h])
  have htail : Reaches (runProducer id) 1 r (.readTail c base) r (.scan c base r.tail 0) :=
    reaches_of_stepProducer rfl
  have hkeep : Reaches (runProducer id) 1 r (.keep c base r.wantFloor)
      { r with lastTail := r.wantFloor } (.compare c base) := reaches_of_stepProducer rfl
  exact (((hcompare.trans htail).trans (reaches_keep_wants id r c base r.tail 0)).trans hkeep).mono
    (by omega)

/-- A consumer that finds no item by the kept bound computes it anew. -/
theorem reaches_pass_claims {position : Nat} (h : r.firstHead ≤ position) :
    Reaches (runConsumer id) (r.producers.size + 4) r (.compare position)
      { r with firstHead := r.claimFloor } (.compare position) := by
  have hcompare : Reaches (runConsumer id) 1 r (.compare position) r (.readHead position) :=
    reaches_of_stepConsumer (by simp [stepConsumer, h])
  have hhead : Reaches (runConsumer id) 1 r (.readHead position) r (.scan position r.head 0) :=
    reaches_of_stepConsumer rfl
  have hkeep : Reaches (runConsumer id) 1 r (.keep position r.claimFloor)
      { r with firstHead := r.claimFloor } (.compare position) := reaches_of_stepConsumer rfl
  exact (((hcompare.trans hhead).trans
    (reaches_keep_claims id r position r.head 0)).trans hkeep).mono (by omega)

end Passes

/-! ## The end of a wait loop -/

section Waits

variable (id : Nat) {r : RingBuffer α}

/-- A producer goes on when there is room by the bound that it would compute.  The bound that is
kept then may be the old one. -/
theorem reaches_granted {c : Claim α} {base : Nat} (hkept : r.lastTail ≤ r.wantFloor)
    (hroom : base + c.size - 1 < r.wantFloor + r.capacity) :
    ∃ kept, kept ≤ r.wantFloor ∧
      Reaches (runProducer id) (r.consumers.size + 5) r (.compare c base)
      { r with lastTail := kept } (c.granted base) := by
  by_cases h : r.lastTail + r.capacity ≤ base + c.size - 1
  · refine ⟨r.wantFloor, Nat.le_refl _,
      (reaches_pass_wants id r h).trans (reaches_of_stepProducer ?_)⟩
    simp [stepProducer, Nat.not_le.mpr hroom]
  · refine ⟨r.lastTail, hkept, (reaches_of_stepProducer ?_).mono (Nat.le_add_left 1 _)⟩
    simp [stepProducer, h]

/-- A consumer goes on when its item is there by the bound that it would compute. -/
theorem reaches_take {position : Nat} (hkept : r.firstHead ≤ r.claimFloor)
    (hitem : position < r.claimFloor) :
    ∃ kept, kept ≤ r.claimFloor ∧
      Reaches (runConsumer id) (r.producers.size + 5) r (.compare position)
      { r with firstHead := kept } (.take position) := by
  by_cases h : r.firstHead ≤ position
  · refine ⟨r.claimFloor, Nat.le_refl _,
      (reaches_pass_claims id r h).trans (reaches_of_stepConsumer ?_)⟩
    simp [stepConsumer, Nat.not_le.mpr hitem]
  · refine ⟨r.firstHead, hkept, (reaches_of_stepConsumer ?_).mono (Nat.le_add_left 1 _)⟩
    simp [stepConsumer, h]

/-- A producer is in its wait loop, and whichever bound it is about to use leaves no room up to
`last`. -/
def NoRoom (r : RingBuffer α) (last : Nat) : ProducerPoint α → Prop
  | .compare c base => base + c.size - 1 = last ∧ r.lastTail + r.capacity ≤ last
  | .readTail c base => base + c.size - 1 = last
  | .scan c base floor next =>
      base + c.size - 1 = last ∧
        floorOf floor ((r.consumers.toList.map ConsumerRole.cursor).drop next) + r.capacity ≤ last
  | .keep c base floor => base + c.size - 1 = last ∧ floor + r.capacity ≤ last
  | _ => False

/-- A consumer is in its wait loop, and whichever bound it is about to use is not beyond its
position. -/
def NoItem (r : RingBuffer α) (position : Nat) : ConsumerPoint α → Prop
  | .compare k => k = position ∧ r.firstHead ≤ position
  | .readHead k => k = position
  | .scan k floor next =>
      k = position ∧
        floorOf floor ((r.producers.toList.map ProducerRole.cursor).drop next) ≤ position
  | .keep k floor => k = position ∧ floor ≤ position
  | _ => False

/-- A step of a producer that finds no room leaves it in its wait loop. -/
theorem stepProducer_noRoom {last : Nat} (hfull : r.wantFloor + r.capacity ≤ last)
    {p : ProducerPoint α} (hp : r.NoRoom last p) :
    ∃ r' p', r.stepProducer id p = (r', .next p') ∧ r'.wantFloor + r'.capacity ≤ last ∧
      r'.NoRoom last p' := by
  cases p with
  | compare c base =>
      obtain ⟨rfl, hkept⟩ := hp
      exact ⟨r, .readTail c base, by simp [stepProducer, hkept], hfull, rfl⟩
  | readTail c base => exact ⟨r, .scan c base r.tail 0, rfl, hfull, hp, hfull⟩
  | scan c base floor next =>
      obtain ⟨hlast, hfloor⟩ := hp
      by_cases hnext : next < r.consumers.size
      · rw [floorOf_drop_of_lt (by simpa using hnext)] at hfloor
        refine ⟨r, .scan c base (min floor (r.consumer next).cursor) (next + 1),
          by simp [stepProducer, hnext], hfull, hlast, ?_⟩
        simpa [consumer, hnext] using hfloor
      · rw [floorOf_drop_of_le (by simpa using Nat.le_of_not_lt hnext)] at hfloor
        exact ⟨r, .keep c base floor, by simp [stepProducer, hnext], hfull, hlast, hfloor⟩
  | keep c base floor => exact ⟨{ r with lastTail := floor }, .compare c base, rfl, hfull, hp⟩
  | _ => exact hp.elim

/-- A step of a consumer that finds no item leaves it in its wait loop. -/
theorem stepConsumer_noItem {position : Nat} (hempty : r.claimFloor ≤ position)
    {p : ConsumerPoint α} (hp : r.NoItem position p) :
    ∃ r' p', r.stepConsumer id p = (r', .next p') ∧ r'.claimFloor ≤ position ∧
      r'.NoItem position p' := by
  cases p with
  | compare k =>
      obtain ⟨rfl, hkept⟩ := hp
      exact ⟨r, .readHead k, by simp [stepConsumer, hkept], hempty, rfl⟩
  | readHead k => exact ⟨r, .scan k r.head 0, rfl, hempty, hp, hempty⟩
  | scan k floor next =>
      obtain ⟨hposition, hfloor⟩ := hp
      by_cases hnext : next < r.producers.size
      · rw [floorOf_drop_of_lt (by simpa using hnext)] at hfloor
        refine ⟨r, .scan k (min floor (r.producer next).cursor) (next + 1),
          by simp [stepConsumer, hnext], hempty, hposition, ?_⟩
        simpa [producer, hnext] using hfloor
      · rw [floorOf_drop_of_le (by simpa using Nat.le_of_not_lt hnext)] at hfloor
        exact ⟨r, .keep k floor, by simp [stepConsumer, hnext], hempty, hposition, hfloor⟩
  | keep k floor => exact ⟨{ r with firstHead := floor }, .compare k, rfl, hempty, hp⟩
  | _ => exact hp.elim

/-- A producer stays in its wait loop for ever when there is no room by the bound that it would
compute. -/
theorem waits_for_room {last : Nat} (hfull : r.wantFloor + r.capacity ≤ last)
    {p : ProducerPoint α} (hp : r.NoRoom last p) : Waits (runProducer id) r p := by
  intro fuel
  induction fuel generalizing r p with
  | zero => rfl
  | succ fuel ih =>
      obtain ⟨r', p', hstep, hfull', hp'⟩ := stepProducer_noRoom id hfull hp
      simp only [runProducer, hstep]
      exact ih hfull' hp'

/-- A consumer stays in its wait loop for ever when its item is not there by the bound that it would
compute. -/
theorem waits_for_item {position : Nat} (hempty : r.claimFloor ≤ position) {p : ConsumerPoint α}
    (hp : r.NoItem position p) : Waits (runConsumer id) r p := by
  intro fuel
  induction fuel generalizing r p with
  | zero => rfl
  | succ fuel ih =>
      obtain ⟨r', p', hstep, hempty', hp'⟩ := stepConsumer_noItem id hempty hp
      simp only [runConsumer, hstep]
      exact ih hempty' hp'

end Waits

/-! ## Calls as far as their wait loops -/

section Claims

variable {r : RingBuffer α} {id : Nat}

/-- The ring buffer when a producer has claimed positions and shows the first of them. -/
def afterClaim (r : RingBuffer α) (id : Nat) (c : Claim α) : RingBuffer α :=
  { r.setProducerCursor id r.head with head := r.head + c.size }.setProducerCursor id r.head

/-- The ring buffer when a consumer has claimed a position and shows it. -/
def afterWant (r : RingBuffer α) (id : Nat) : RingBuffer α :=
  { r.setConsumerCursor id r.tail with tail := r.tail + 1 }.setConsumerCursor id r.tail

theorem reaches_afterClaim {c : Claim α} (h : r.checkClaim id c = .ok ()) :
    Reaches (runProducer id) 5 r (.check c) (r.afterClaim id c) (.compare c r.head) :=
  ⟨5, Nat.le_refl 5, fun fuel => by simp only [runProducer, stepProducer, h]; rfl⟩

theorem reaches_afterWant :
    Reaches (runConsumer id) 4 r .readTail (r.afterWant id) (.compare r.tail) :=
  ⟨4, Nat.le_refl 4, fun fuel => by simp only [runConsumer, stepConsumer]; rfl⟩

/-- A producer that has room for its claim goes on with it. -/
theorem claim_reaches_granted {c : Claim α} (h : r.checkClaim id c = .ok ())
    (hkept : r.lastTail ≤ r.wantFloor) (hroom : r.head + c.size - 1 < r.wantFloor + r.capacity) :
    ∃ kept, kept ≤ r.wantFloor ∧ Reaches (runProducer id) (r.consumers.size + 10) r (.check c)
      { r.afterClaim id c with lastTail := kept } (c.granted r.head) := by
  obtain ⟨kept, hle, hgranted⟩ :=
    reaches_granted id (r := r.afterClaim id c) (c := c) hkept hroom
  refine ⟨kept, hle, ((reaches_afterClaim h).trans hgranted).mono ?_⟩
  rw [show (r.afterClaim id c).consumers.size = r.consumers.size from rfl]
  omega

/-- A producer that has no room for its claim never ends its call. -/
theorem claim_waits {c : Claim α} (h : r.checkClaim id c = .ok ())
    (hkept : r.lastTail ≤ r.wantFloor)
    (hfull : r.wantFloor + r.capacity ≤ r.head + c.size - 1) :
    Waits (runProducer id) r (.check c) := by
  refine Reaches.waits (runProducer_mono) (reaches_afterClaim h) ?_
  have hbound : (r.afterClaim id c).wantFloor + (r.afterClaim id c).capacity ≤
      r.head + c.size - 1 := hfull
  exact waits_for_room id hbound ⟨rfl, Nat.le_trans (Nat.add_le_add_right hkept _) hfull⟩

/-- A consumer whose item is there takes it. -/
theorem want_reaches_take (hkept : r.firstHead ≤ r.claimFloor) (hitem : r.tail < r.claimFloor) :
    ∃ kept, kept ≤ r.claimFloor ∧ Reaches (runConsumer id) (r.producers.size + 9) r .readTail
      { r.afterWant id with firstHead := kept } (.take r.tail) := by
  obtain ⟨kept, hle, htake⟩ := reaches_take id (r := r.afterWant id) hkept hitem
  refine ⟨kept, hle, (reaches_afterWant.trans htake).mono ?_⟩
  rw [show (r.afterWant id).producers.size = r.producers.size from rfl]
  omega

/-- A consumer whose item is not there never ends its call. -/
theorem want_waits (hkept : r.firstHead ≤ r.claimFloor) (hempty : r.claimFloor ≤ r.tail) :
    Waits (runConsumer id) r .readTail := by
  refine Reaches.waits (runConsumer_mono) reaches_afterWant ?_
  have hbound : (r.afterWant id).claimFloor ≤ r.tail := hempty
  exact waits_for_item id hbound ⟨rfl, Nat.le_trans hkept hempty⟩

end Claims

/-! ## The ends of calls -/

section Ends

variable (r : RingBuffer α) (id : Nat)

/-- The ring buffer when a producer has pushed an item and come to rest. -/
def afterPush (kept : Nat) (item : α) : RingBuffer α :=
  { (r.setProducerCursor id atRest).setSlot r.head (some item) with
    head := r.head + 1, lastTail := kept }

/-- The ring buffer when a producer has reserved positions. -/
def afterReserve (kept count : Nat) : RingBuffer α :=
  { r.setProducer id { r.producer id with cursor := r.head, reserved := count, filled := 0 } with
    head := r.head + count
    lastTail := kept }

/-- The ring buffer when a producer has filled a position, and has counted it if the slot was
empty. -/
def afterFill (item : α) (position : Nat) : RingBuffer α :=
  (r.setSlot position (some item)).setProducer id
    { r.producer id with
      filled := (r.producer id).filled + if (r.slot position).isNone then 1 else 0 }

/-- The ring buffer when a producer has given up what it reserved and come to rest. -/
def afterRelease : RingBuffer α :=
  r.setProducer id { r.producer id with cursor := atRest, reserved := 0, filled := 0 }

/-- The ring buffer when a consumer has taken an item and come to rest. -/
def afterTake (kept : Nat) : RingBuffer α :=
  { (r.setConsumerCursor id atRest).setSlot r.tail none with tail := r.tail + 1, firstHead := kept }

theorem setProducer_producer : r.setProducer id (r.producer id) = r := by
  have hsame : r.producers.setIfInBounds id (r.producer id) = r.producers := by
    refine Array.ext (by simp) fun i _ hi => ?_
    rw [Array.getElem_setIfInBounds hi]
    split
    next heq => simp [producer, heq, hi]
    next => rfl
  rw [setProducer, hsame]

variable {r id}

theorem runProducer_misuse {c : Claim α} {m : Misuse} (h : r.checkClaim id c = .error m)
    (fuel : Nat) :
    runProducer id (fuel + 1) r (.check c) = some (r, .misuse m) := by
  simp only [runProducer, stepProducer, h]

theorem runProducer_push (hid : id < r.producers.size) (kept : Nat) (item : α) (fuel : Nat) :
    runProducer id (fuel + 2) { r.afterClaim id (.push item) with lastTail := kept }
      (.write item r.head) =
      some (r.afterPush id kept item, .done) := by
  simp [runProducer, stepProducer, afterClaim, afterPush, setProducerCursor,
    setProducer, setSlot, producer, hid, Claim.size]

theorem runProducer_reserve (hid : id < r.producers.size) (kept count fuel : Nat) :
    runProducer id (fuel + 2) { r.afterClaim id (.reserve count) with lastTail := kept }
      (.clearFilled count) = some (r.afterReserve id kept count, .done) := by
  simp [runProducer, stepProducer, afterClaim, afterReserve, setProducerCursor,
    setProducer, producer, hid, Claim.size]

theorem runProducer_fill_outside (item : α) {offset : Nat}
    (h : (r.producer id).reserved ≤ offset) (fuel : Nat) :
    runProducer id (fuel + 1) r (ProducerCall.fill item offset).start =
      some (r, .filled false) := by
  simp only [ProducerCall.start, runProducer, stepProducer, if_pos h]

theorem runProducer_fill (item : α) {offset : Nat} (h : offset < (r.producer id).reserved)
    (fuel : Nat) :
    runProducer id (fuel + 4) r (ProducerCall.fill item offset).start =
      some (r.afterFill id item ((r.producer id).cursor + offset), .filled true) := by
  simp only [ProducerCall.start, runProducer, stepProducer, if_neg (Nat.not_le.mpr h), afterFill]
  cases (r.slot ((r.producer id).cursor + offset)).isNone
  · have hsame := setProducer_producer (r.setSlot ((r.producer id).cursor + offset) (some item)) id
    exact congrArg (fun s => some (s, Outcome.filled true)) hsame.symm
  · rfl

theorem runProducer_release_unfilled (h : (r.producer id).filled ≠ (r.producer id).reserved)
    (fuel : Nat) :
    runProducer id (fuel + 2) r ProducerCall.release.start =
      some (r, .misuse (.releaseUnfilled id (r.producer id).filled (r.producer id).reserved)) := by
  simp only [ProducerCall.start, runProducer, stepProducer, if_pos h]

theorem runProducer_release (hid : id < r.producers.size)
    (h : (r.producer id).filled = (r.producer id).reserved) (fuel : Nat) :
    runProducer id (fuel + 5) r ProducerCall.release.start = some (r.afterRelease id, .done) := by
  simp only [ProducerCall.start, runProducer, stepProducer, if_neg (Decidable.not_not.mpr h)]
  simp [afterRelease, setProducerCursor, setProducer, producer, hid]

theorem runConsumer_take (hid : id < r.consumers.size) (kept : Nat) {a : α}
    (h : r.slot r.tail = some a) (fuel : Nat) :
    runConsumer id (fuel + 2) { r.afterWant id with firstHead := kept } (.take r.tail) =
      some (r.afterTake id kept, .item a) := by
  have hslot : ({ r.afterWant id with firstHead := kept } : RingBuffer α).slot r.tail = some a := h
  simp only [runConsumer, stepConsumer, hslot]
  simp [afterWant, afterTake, setConsumerCursor, setConsumer, setSlot, consumer, hid]

end Ends

end Lineage.RingBuffer

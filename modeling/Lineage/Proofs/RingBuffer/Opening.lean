import Lineage.Proofs.RingBuffer.Misuse
import Lineage.Proofs.RingBuffer.Simulation

/-!
# The first calls on a ring buffer

Some orders of steps can be taken in a ring buffer of every shape, and what they come to shows what
a machine can do.  This module has the parts of such orders.  Someone takes every role
(`Machine.exists_staffed`), and then a producer or a consumer claims while others stand still
(`Machine.run_claim`, `Machine.run_want`).
-/

namespace Lineage.RingBuffer

variable {α : Type}

/-! ## Staff -/

/-- A ring buffer as new, except that someone holds the first `held` producers and consumers. -/
structure Staffed (capacity producers consumers heldProducers heldConsumers : Nat)
    (r : RingBuffer α) : Prop where
  capacity : r.capacity = capacity
  producers : r.producers.size = producers
  consumers : r.consumers.size = consumers
  head : r.head = 0
  tail : r.tail = 0
  firstHead : r.firstHead = 0
  lastTail : r.lastTail = 0
  size_slots : r.slots.size = r.capacity
  slot : ∀ k, r.slot k = none
  producer : ∀ id, r.producer id = { cursor := atRest, held := decide (id < heldProducers) }
  consumer : ∀ id, r.consumer id = { cursor := atRest, held := decide (id < heldConsumers) }

theorem atRest_pos : 0 < atRest := by decide

theorem sizes_pos_of_new {capacity producers consumers : Nat} {r : RingBuffer α}
    (h : RingBuffer.new capacity producers consumers = .ok r) :
    0 < capacity ∧ 0 < producers ∧ 0 < consumers := by
  refine ⟨(eq_empty_of_new h).2, ?_⟩
  unfold RingBuffer.new at h
  split at h
  · cases h
  · split at h
    · cases h
    · split at h
      · cases h
      · omega

section Staffed

variable {capacity producers consumers p c : Nat} {r : RingBuffer α}

theorem staffed_empty :
    Staffed capacity producers consumers 0 0
      (empty capacity producers consumers : RingBuffer α) where
  capacity := rfl
  producers := Array.size_replicate
  consumers := Array.size_replicate
  head := rfl
  tail := rfl
  firstHead := rfl
  lastTail := rfl
  size_slots := Array.size_replicate
  slot := slot_empty capacity producers consumers
  producer id := by simp
  consumer id := by simp

/-- Someone takes the role of the next producer. -/
theorem Staffed.takeProducer (h : Staffed capacity producers consumers p c r) (hp : p < producers) :
    ∃ r', r.takeProducer p = .ok r' ∧ Staffed capacity producers consumers (p + 1) c r' := by
  have hid : p < r.producers.size := h.producers ▸ hp
  refine ⟨r.setProducer p { cursor := atRest, held := true }, ?_, ?_⟩
  · simp [RingBuffer.takeProducer, h.producer p, Nat.not_le.mpr hid]
  · refine { h with producers := by simpa using h.producers, producer := fun id => ?_ }
    rw [producer_setProducer r hid, h.producer id]
    by_cases hsame : id = p
    · subst hsame
      simp
    · have hbelow : id < p + 1 ↔ id < p := by omega
      simp only [if_neg hsame, hbelow]

/-- Someone takes the role of the next consumer. -/
theorem Staffed.takeConsumer (h : Staffed capacity producers consumers p c r) (hc : c < consumers) :
    ∃ r', r.takeConsumer c = .ok r' ∧ Staffed capacity producers consumers p (c + 1) r' := by
  have hid : c < r.consumers.size := h.consumers ▸ hc
  refine ⟨r.setConsumer c { cursor := atRest, held := true }, ?_, ?_⟩
  · simp [RingBuffer.takeConsumer, h.consumer c, Nat.not_le.mpr hid]
  · refine { h with consumers := by simpa using h.consumers, consumer := fun id => ?_ }
    rw [consumer_setConsumer r hid, h.consumer id]
    by_cases hsame : id = c
    · subst hsame
      simp
    · have hbelow : id < c + 1 ↔ id < c := by omega
      simp only [if_neg hsame, hbelow]

end Staffed

/-! ## Roles after calls -/

section Roles

variable {r : RingBuffer α} {id : Nat}

theorem producer_afterClaim (hid : id < r.producers.size) (c : Claim α) (j : Nat) :
    (r.afterClaim id c).producer j =
      if j = id then { r.producer id with cursor := r.head } else r.producer j := by
  have hsame : r.afterClaim id c =
      { r.setProducer id { r.producer id with cursor := r.head } with
        head := r.head + c.size } := by
    simp [afterClaim, setProducerCursor, setProducer, producer, hid]
  rw [hsame]
  exact producer_setProducer r hid _ j

/-! A claim changes nothing but `head` and the cursor. -/

@[simp] theorem head_afterClaim (c : Claim α) : (r.afterClaim id c).head = r.head + c.size := rfl

@[simp] theorem tail_afterClaim (c : Claim α) : (r.afterClaim id c).tail = r.tail := rfl

@[simp] theorem firstHead_afterClaim (c : Claim α) : (r.afterClaim id c).firstHead = r.firstHead :=
  rfl

@[simp] theorem slot_afterClaim (c : Claim α) (k : Nat) : (r.afterClaim id c).slot k = r.slot k :=
  rfl

@[simp] theorem consumer_afterClaim (c : Claim α) (j : Nat) :
    (r.afterClaim id c).consumer j = r.consumer j := rfl

@[simp] theorem size_producers_afterClaim (c : Claim α) :
    (r.afterClaim id c).producers.size = r.producers.size := by
  simp [afterClaim, setProducerCursor]

theorem consumer_afterWant (hid : id < r.consumers.size) (j : Nat) :
    (r.afterWant id).consumer j =
      if j = id then { r.consumer id with cursor := r.tail } else r.consumer j := by
  have hsame : r.afterWant id =
      { r.setConsumer id { r.consumer id with cursor := r.tail } with tail := r.tail + 1 } := by
    simp [afterWant, setConsumerCursor, setConsumer, consumer, hid]
  rw [hsame]
  exact consumer_setConsumer r hid _ j

theorem producer_afterPush (hid : id < r.producers.size) (kept : Nat) (item : α) (j : Nat) :
    (r.afterPush id kept item).producer j =
      if j = id then { r.producer id with cursor := atRest } else r.producer j :=
  producer_setProducer r hid _ j

theorem consumer_afterTake (hid : id < r.consumers.size) (kept j : Nat) :
    (r.afterTake id kept).consumer j =
      if j = id then { r.consumer id with cursor := atRest } else r.consumer j :=
  consumer_setConsumer r hid _ j

/-- Someone holds every producer, and nothing is reserved. -/
def Ready (r : RingBuffer α) : Prop :=
  ∀ id, id < r.producers.size → (r.producer id).held = true ∧ (r.producer id).reserved = 0

theorem Staffed.ready {capacity producers consumers heldConsumers : Nat}
    (h : Staffed capacity producers consumers producers heldConsumers r) : Ready r := by
  intro id hid
  rw [h.producer id, decide_eq_true (h.producers ▸ hid)]
  exact ⟨rfl, rfl⟩

theorem Ready.afterClaim (h : Ready r) (hid : id < r.producers.size) (c : Claim α) :
    Ready (r.afterClaim id c) := by
  intro j hj
  rw [producer_afterClaim hid]
  split
  · exact h id hid
  · exact h j (by simpa using hj)

theorem Ready.afterPush (h : Ready r) (hid : id < r.producers.size) (kept : Nat) (item : α) :
    Ready (r.afterPush id kept item) := by
  intro j hj
  rw [producer_afterPush hid]
  split
  · exact h id hid
  · exact h j (by simpa [RingBuffer.afterPush, setProducerCursor, setSlot] using hj)

/-- A producer with nothing reserved may reserve a whole lap. -/
theorem Ready.checkClaim_lap (h : Ready r) (hid : id < r.producers.size) (hpos : 0 < r.capacity) :
    r.checkClaim id (.reserve r.capacity) = .ok () := by
  simp [checkClaim, Nat.ne_of_gt hpos, (h id hid).2]

end Roles

namespace Machine

variable {sharing : Sharing} {start m : Machine α} {marks : List (Mark α)}
  {caller id : Nat} {role : Role}

/-- Someone takes every role of a new ring buffer. -/
theorem exists_staffed {capacity producers consumers : Nat} {r : RingBuffer α}
    (hnew : RingBuffer.new capacity producers consumers = .ok r) :
    ∃ (marks : List (Mark α)) (r' : RingBuffer α), Run sharing ⟨r, fun _ => none⟩ marks
      ⟨r', fun _ => none⟩ ∧
      Staffed capacity producers consumers producers consumers r' := by
  obtain ⟨rfl, -⟩ := eq_empty_of_new hnew
  have hproducers : ∀ p, p ≤ producers → ∃ (marks : List (Mark α)) (r' : RingBuffer α),
      Run sharing ⟨empty capacity producers consumers, fun _ => none⟩ marks
        ⟨r', fun _ => none⟩ ∧
        Staffed capacity producers consumers p 0 r' := by
    intro p
    induction p with
    | zero => exact fun _ => ⟨_, _, .none, staffed_empty⟩
    | succ p ih =>
        intro hp
        obtain ⟨marks, r', hrun, hstaffed⟩ := ih (Nat.le_of_succ_le hp)
        obtain ⟨r'', htake, hstaffed'⟩ := hstaffed.takeProducer hp
        exact ⟨_, r'', hrun.snoc (.takeProducer htake), hstaffed'⟩
  have hconsumers : ∀ c, c ≤ consumers → ∃ (marks : List (Mark α)) (r' : RingBuffer α),
      Run sharing ⟨empty capacity producers consumers, fun _ => none⟩ marks
        ⟨r', fun _ => none⟩ ∧
        Staffed capacity producers consumers producers c r' := by
    intro c
    induction c with
    | zero => exact fun _ => hproducers producers (Nat.le_refl _)
    | succ c ih =>
        intro hc
        obtain ⟨marks, r', hrun, hstaffed⟩ := ih (Nat.le_of_succ_le hc)
        obtain ⟨r'', htake, hstaffed'⟩ := hstaffed.takeConsumer hc
        exact ⟨_, r'', hrun.snoc (.takeConsumer htake), hstaffed'⟩
  exact hconsumers consumers (Nat.le_refl _)

/-! ## Who is free -/

theorem isFree_of_no_call (r : RingBuffer α) (role : Role) :
    IsFree ⟨r, fun _ => none⟩ role := by
  intro caller a ha
  cases ha

theorem IsFree.setCall_some {a : Activity α} (h : m.IsFree role) (hne : a.role ≠ role) :
    (m.setCall caller (some a)).IsFree role := by
  intro c b hb
  by_cases hc : c = caller
  · subst hc
    rw [calls_setCall_self] at hb
    cases hb
    exact hne
  · rw [calls_setCall_ne hc] at hb
    exact h c b hb

/-! ## Claims -/

/-- A producer that is about to check its claim claims positions while the others stand still. -/
theorem run_checked {c : Claim α}
    (hrun : Run sharing start marks (m.setCall caller (some (.producing id (.check c)))))
    (hcheck : m.ring.checkClaim id c = .ok ()) :
    ∃ marks', Run sharing start marks' ({ m with ring := m.ring.afterClaim id c }.setCall caller
      (some (.producing id (.compare c m.ring.head)))) := by
  have hstep : m.ring.stepActivity (.producing id (.check c)) =
      (m.ring, some (.producing id (.readHead c))) := by
    simp only [stepActivity, stepProducer, hcheck]
  exact ⟨_, ((((hrun.advance hstep).advance rfl).advance rfl).advance rfl).advance rfl⟩

/-- A producer claims positions while the others stand still. -/
theorem run_claim (caller id : Nat) {c : Claim α} (hrun : Run sharing start marks m)
    (hmay : MayStart sharing m caller ⟨.producer, id⟩)
    (hcheck : m.ring.checkClaim id c = .ok ()) :
    ∃ marks', Run sharing start marks' ({ m with ring := m.ring.afterClaim id c }.setCall caller
      (some (.producing id (.compare c m.ring.head)))) := by
  have hstart : c.call.start = .check c := by cases c <;> rfl
  exact run_checked (hstart ▸ hrun.snoc (.produce c.call hmay)) hcheck

/-- A consumer claims a position while the others stand still. -/
theorem run_want (caller id : Nat) (hrun : Run sharing start marks m)
    (hmay : MayStart sharing m caller ⟨.consumer, id⟩) :
    ∃ marks', Run sharing start marks' ({ m with ring := m.ring.afterWant id }.setCall caller
      (some (.consuming id (.compare m.ring.tail)))) :=
  ⟨_, ((((hrun.snoc (.consume hmay)).advance rfl).advance rfl).advance rfl).advance rfl⟩

/-- A producer pushes an item while the others stand still. -/
theorem run_push (caller id : Nat) (item : α) (hrun : Run sharing start marks m)
    (hmay : MayStart sharing m caller ⟨.producer, id⟩) (hid : id < m.ring.producers.size)
    (hreserved : (m.ring.producer id).reserved = 0) (hkept : m.ring.lastTail ≤ m.ring.wantFloor)
    (hroom : m.ring.head < m.ring.wantFloor + m.ring.capacity) :
    ∃ marks' kept, kept ≤ m.ring.wantFloor ∧
      Run sharing start marks' { m with ring := m.ring.afterPush id kept item } := by
  have hcheck : m.ring.checkClaim id (.push item) = .ok () := by simp [checkClaim, hreserved]
  obtain ⟨kept, hle, hreaches⟩ := claim_reaches_granted hcheck hkept hroom
  have hproduce : m.ring.produce id (.push item) = some (m.ring.afterPush id kept item, .done) :=
    hreaches.ends (runProducer_push hid kept item) (by simp only [onePass]; omega)
  exact ⟨_, kept, hle, run_produce hrun hmay hproduce⟩

/-- A consumer pops an item while the others stand still. -/
theorem run_pop (caller id : Nat) (hrun : Run sharing start marks m)
    (hmay : MayStart sharing m caller ⟨.consumer, id⟩) (hid : id < m.ring.consumers.size)
    (hkept : m.ring.firstHead ≤ m.ring.claimFloor) (hitem : m.ring.tail < m.ring.claimFloor)
    {a : α} (hslot : m.ring.slot m.ring.tail = some a) :
    ∃ marks' kept, Run sharing start marks' { m with ring := m.ring.afterTake id kept } := by
  obtain ⟨kept, -, hreaches⟩ := @want_reaches_take _ m.ring id hkept hitem
  have hconsume : m.ring.consume id = some (m.ring.afterTake id kept, .item a) :=
    hreaches.ends (runConsumer_take hid kept hslot) (by simp only [onePass]; omega)
  exact ⟨_, kept, run_consume hrun hmay hconsume⟩

/-! ## The kept bounds -/

/-- A producer waits if `lastTail` does not let it go on. -/
theorem run_full {c : Claim α} {base : Nat}
    (hrun : Run sharing start marks (m.setCall caller (some (.producing id (.compare c base)))))
    (hfull : m.ring.lastTail + m.ring.capacity ≤ base + c.size - 1) :
    ∃ marks', Run sharing start marks'
      (m.setCall caller (some (.producing id (.readTail c base)))) := by
  have hstep : m.ring.stepActivity (.producing id (.compare c base)) =
      (m.ring, some (.producing id (.readTail c base))) := by
    simp only [stepActivity, stepProducer, if_pos hfull]
  exact ⟨_, hrun.advance hstep⟩

/-- A consumer waits if `firstHead` does not let it go on. -/
theorem run_lacking {position : Nat}
    (hrun : Run sharing start marks (m.setCall caller (some (.consuming id (.compare position)))))
    (hlacking : m.ring.firstHead ≤ position) :
    ∃ marks', Run sharing start marks'
      (m.setCall caller (some (.consuming id (.readHead position)))) := by
  have hstep : m.ring.stepActivity (.consuming id (.compare position)) =
      (m.ring, some (.consuming id (.readHead position))) := by
    simp only [stepActivity, stepConsumer, if_pos hlacking]
  exact ⟨_, hrun.advance hstep⟩

end Machine

end Lineage.RingBuffer

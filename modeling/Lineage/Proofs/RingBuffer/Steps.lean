import Lineage.Proofs.RingBuffer.Effects

/-!
# One step of a call

A step of a call whose point fits the state leaves a mark that the ledger admits, leads to a sound
state, and leaves the call at a point that fits again, or its role between two calls.
`stepProducer_admits`, `stepProducer_advance` and `stepProducer_fits` say so of producers, and the
lemmas on `stepConsumer` of consumers.
-/

namespace Lineage.RingBuffer

variable {α : Type} {l : Ledger α} {r : RingBuffer α}

/-! ## Counting what is stored -/

theorem storedCount_eq_zero {base count : Nat}
    (h : ∀ k, base ≤ k → k < base + count → l.stored k = none) :
    l.storedCount base count = 0 := by
  unfold Ledger.storedCount
  rw [List.countP_eq_zero]
  intro i hi
  rw [h (base + i) (Nat.le_add_right ..) (Nat.add_lt_add_left (List.mem_range.mp hi) base)]
  simp

theorem storedCount_le (base count : Nat) : l.storedCount base count ≤ count := by
  have h :=
    List.countP_le_length (p := fun i => (l.stored (base + i)).isSome) (l := List.range count)
  rwa [List.length_range] at h

theorem exists_stored_of_storedCount {base count : Nat} (h : l.storedCount base count = count)
    {k : Nat} (hb : base ≤ k) (hk : k < base + count) : ∃ x, l.stored k = some x := by
  have hall := List.countP_eq_length.mp (h.trans List.length_range.symm)
  have hk' := hall (k - base) (List.mem_range.mpr (by omega))
  rw [Nat.add_sub_cancel' hb] at hk'
  exact Option.isSome_iff_exists.mp hk'

/-- A predicate that becomes true of one more number counts one more. -/
theorem countP_range_succ {p q : Nat → Bool} {n i : Nat} (hi : i < n) (hp : p i = false)
    (hq : q i = true) (hrest : ∀ j, j ≠ i → q j = p j) :
    (List.range n).countP q = (List.range n).countP p + 1 := by
  induction n with
  | zero => cases hi
  | succ n ih =>
      rw [List.range_succ, List.countP_append, List.countP_append]
      by_cases hlast : i = n
      · subst hlast
        have hsame : (List.range i).countP q = (List.range i).countP p := by
          apply List.countP_congr
          intro j hj
          rw [hrest j (Nat.ne_of_lt (List.mem_range.mp hj))]
        simp [hsame, hp, hq]
      · rw [ih (by omega)]
        simp only [List.countP_singleton, hrest n (Ne.symm hlast)]
        omega

/-- The first item for a position counts. -/
theorem storedCount_store_first {base count position : Nat} (hb : base ≤ position)
    (hlt : position < base + count) (hnone : l.stored position = none) (id : Nat) (item : α) :
    (l.add (.stored id position item)).storedCount base count = l.storedCount base count + 1 := by
  unfold Ledger.storedCount
  refine countP_range_succ (i := position - base) (by omega) ?_ ?_ ?_
  · simp [Nat.add_sub_cancel' hb, hnone]
  · simp [Ledger.add, Nat.add_sub_cancel' hb]
  · intro j hj
    have hne : base + j ≠ position := by omega
    simp [Ledger.add, hne]

/-- Another item for a position does not count. -/
theorem storedCount_store_again {base count position : Nat} {x : Nat × α}
    (hsome : l.stored position = some x) (id : Nat) (item : α) :
    (l.add (.stored id position item)).storedCount base count = l.storedCount base count := by
  unfold Ledger.storedCount
  apply List.countP_congr
  intro i _
  by_cases hi : base + i = position
  · simp [Ledger.add, hi, hsome]
  · simp [Ledger.add, hi]

/-! ## Points of a producer -/

theorem Fresh.complete_of_store {id position : Nat} (h : Fresh l r id position 1) (item : α) :
    Complete (l.add (.stored id position item)) id := by
  intro b c hc k hb hk
  rw [show (l.add (.stored id position item)).claim = l.claim from rfl, h.claim] at hc
  cases hc
  have hk' : k = position := by omega
  exact ⟨item, by simp [Ledger.add, hk']⟩

theorem Filling.complete {id : Nat} (hs : Sound l r) (h : Filling l r id 0)
    (hfull : (r.producer id).filled = (r.producer id).reserved) : Complete l id := by
  intro b c hc k hb hk
  rw [h.claim] at hc
  cases hc
  obtain ⟨⟨j, a⟩, hx⟩ := exists_stored_of_storedCount (h.filled.symm.trans hfull) hb hk
  have howner := (hs.stored_owner hx).symm.trans (hs.claim_owner h.claim k hb hk)
  exact ⟨a, hx.trans (by rw [Option.some.inj howner])⟩

theorem Between.complete {id : Nat} (hs : Sound l r) (h : Between l r id)
    (hfull : (r.producer id).filled = (r.producer id).reserved) : Complete l id := by
  cases h with
  | inl hidle =>
      intro b c hc
      rw [hidle.1] at hc
      cases hc
  | inr hfilling => exact hfilling.complete hs hfull

/-- A producer whose reservation has open positions is filling them. -/
theorem Between.filling {id offset : Nat} (h : Between l r id)
    (hoffset : offset < (r.producer id).reserved) : Filling l r id 0 := by
  cases h with
  | inl hidle =>
      rw [hidle.2] at hoffset
      cases hoffset
  | inr hfilling => exact hfilling

theorem Between.idle {id : Nat} (h : Between l r id) (hreserved : (r.producer id).reserved = 0) :
    Idle l r id := by
  cases h with
  | inl hidle => exact hidle
  | inr hfilling =>
      have hpos := hfilling.pos
      omega

/-- A claim that is let through is that of a producer without a reservation, and fits the ring
buffer. -/
theorem checkClaim_ok (hs : Sound l r) {id : Nat} {c : Claim α} (h : r.checkClaim id c = .ok ()) :
    (r.producer id).reserved = 0 ∧ 0 < c.size ∧ c.size ≤ r.capacity := by
  cases c with
  | push item =>
      simp only [checkClaim] at h
      split at h
      · cases h
      · rename_i hreserved
        exact ⟨by simpa using hreserved, Nat.one_pos, hs.capacity_pos⟩
  | reserve count =>
      simp only [checkClaim] at h
      split at h
      · cases h
      · rename_i hpos
        split at h
        · cases h
        · rename_i hcap
          split at h
          · cases h
          · rename_i hreserved
            exact ⟨by simpa using hreserved, Nat.pos_of_ne_zero hpos, Nat.le_of_not_lt hcap⟩

/-! ## Steps of a producer -/

theorem stepProducer_admits (hs : Sound l r) {id : Nat} {p : ProducerPoint α}
    (hp : ProducerFits l r id p) : l.Admits r.capacity (r.producerMark id p) := by
  cases p with
  | claim c =>
      refine ⟨hp.1.1, fun k hk _ => ?_⟩
      cases ho : l.owner k with
      | none => rfl
      | some j =>
          have hlt := hs.owner_iff.mp ⟨j, ho⟩
          omega
  | write item position =>
      exact ⟨⟨position, 1, hp.1.claim, Nat.le_refl _, Nat.lt_succ_self _⟩,
        hp.2.lap (Nat.le_refl _)⟩
  | fill item position =>
      obtain ⟨hfilling, hb, hk⟩ := hp
      exact ⟨⟨_, _, hfilling.claim, hb, hk⟩, hfilling.room.lap (by omega)⟩
  | rest =>
      intro b c hc k hb hk
      obtain ⟨a, ha⟩ := hp.1 b c hc k hb hk
      exact ⟨a, id, a, rfl, hs.claim_owner hc k hb hk, ha⟩
  | _ => trivial

theorem stepProducer_advance (hs : Sound l r) {id : Nat} (hid : id < r.producers.size)
    {p : ProducerPoint α} (hp : ProducerFits l r id p) :
    Advance ⟨.producer, id⟩ l r (l.add (r.producerMark id p)) (r.stepProducer id p).1 := by
  cases p with
  | check c =>
      simp only [stepProducer, producerMark, Ledger.add]
      split <;> exact hs.advance_refl _
  | readHead c => exact hs.advance_refl _
  | announce c bound =>
      refine hs.advance_setProducer hid fun b c hc => ?_
      rw [hp.1.1] at hc
      cases hc
  | claim c => exact hs.advance_claim hid hp.1.1 hp.2.2.2
  | publish c base =>
      refine hs.advance_setProducer hid fun b n hc => ?_
      rw [hp.claim] at hc
      cases hc
      exact Nat.le_refl _
  | compare c base =>
      simp only [stepProducer, producerMark, Ledger.add]
      split <;> exact hs.advance_refl _
  | readTail c base => exact hs.advance_refl _
  | scan c base floor next =>
      simp only [stepProducer, producerMark, Ledger.add]
      split <;> exact hs.advance_refl _
  | keep c base floor => exact hs.advance_keepTail hp.2.2
  | write item position =>
      exact hs.advance_store hp.1.claim (Nat.le_refl _) (Nat.lt_succ_self _)
        (hp.2.lap (Nat.le_refl _)) item
  | clearFilled count => exact hs.advance_setProducer hid fun _ _ hc => hs.cursor_le_claim hc
  | setReserved count => exact hs.advance_setProducer hid fun _ _ hc => hs.cursor_le_claim hc
  | checkOffset item offset =>
      simp only [stepProducer, producerMark, Ledger.add]
      split <;> exact hs.advance_refl _
  | readBase item offset => exact hs.advance_refl _
  | fill item position =>
      obtain ⟨hfilling, hb, hk⟩ := hp
      exact hs.advance_store hfilling.claim hb hk (hfilling.room.lap (by omega)) item
  | countFilled => exact hs.advance_setProducer hid fun _ _ hc => hs.cursor_le_claim hc
  | readReserved => exact hs.advance_refl _
  | readFilled reserved =>
      simp only [stepProducer, producerMark, Ledger.add]
      split <;> exact hs.advance_refl _
  | clearReserved => exact hs.advance_setProducer hid fun _ _ hc => hs.cursor_le_claim hc
  | clearCount => exact hs.advance_setProducer hid fun _ _ hc => hs.cursor_le_claim hc
  | rest => exact hs.advance_publish hid hp.1

/-- Where a call of a producer is after a step, or that its role is between two calls. -/
def ProducerGoesOn (l : Ledger α) (r : RingBuffer α) (id : Nat) :
    Progress (ProducerPoint α) α → Prop
  | .next p => ProducerFits l r id p
  | .ended _ => Between l r id

theorem stepProducer_fits (hs : Sound l r) {id : Nat} (hid : id < r.producers.size)
    {p : ProducerPoint α} (hp : ProducerFits l r id p) :
    ProducerGoesOn (l.add (r.producerMark id p)) (r.stepProducer id p).1 id
      (r.stepProducer id p).2 := by
  cases p with
  | check c =>
      simp only [stepProducer, producerMark, Ledger.add]
      split
      · exact hp
      · rename_i hok
        obtain ⟨hreserved, hpos, hcap⟩ := checkClaim_ok hs hok
        exact ⟨Between.idle hp hreserved, hpos, hcap⟩
  | readHead c => exact ⟨hp.1, hp.2.1, hp.2.2, Nat.le_refl _⟩
  | announce c bound =>
      simp only [ProducerGoesOn, stepProducer, ProducerFits, Idle, setProducerCursor,
        producer_setProducer_self r hid]
      exact hp
  | claim c =>
      refine ⟨?_, hp.2.1, hp.1.2, fun k hk _ => hs.stored_eq_none hk⟩
      simp [producerMark, Ledger.add]
  | publish c base =>
      simp only [ProducerGoesOn, stepProducer, ProducerFits, setProducerCursor,
        producer_setProducer_self r hid]
      refine ⟨⟨hp.claim, hp.pos, ?_, hp.unstored⟩, trivial⟩
      rw [producer_setProducer_self r hid]
      exact hp.reserved
  | compare c base =>
      simp only [stepProducer, producerMark, Ledger.add]
      split
      · exact hp
      · rename_i hlt
        obtain ⟨hfresh, hcursor⟩ := hp
        -- The kept bound may be an old one, but every position below it has been emptied.
        have hroom := hs.room (Nat.lt_of_not_le hlt)
        cases c with
        | push item => exact ⟨hfresh, hroom⟩
        | reserve count =>
            simp only [Claim.granted, ProducerGoesOn, ProducerFits, hcursor]
            exact ⟨hfresh, hroom⟩
  | readTail c base =>
      exact ⟨hp.1, hp.2, Nat.le_refl _, fun _ _ hj => absurd hj (Nat.not_lt_zero _)⟩
  | scan c base floor next =>
      obtain ⟨hfresh, hcursor, hfloor⟩ := hp
      simp only [stepProducer, producerMark, Ledger.add]
      split
      · -- The cursor just read is at most what its consumer wants, and new wants begin at `tail`.
        refine ⟨hfresh, hcursor, Nat.le_trans (Nat.min_le_left ..) hfloor.1,
          fun j k hj hw => ?_⟩
        by_cases hlast : j = next
        · subst hlast
          exact Nat.le_trans (Nat.min_le_right ..) (hs.cursor_le_want hw)
        · exact Nat.le_trans (Nat.min_le_left ..) (hfloor.2 j k (by omega) hw)
      · rename_i hall
        exact ⟨hfresh, hcursor, hfloor.1,
          fun j k hj => hfloor.2 j k (Nat.lt_of_lt_of_le hj (Nat.le_of_not_lt hall))⟩
  | keep c base floor =>
      obtain ⟨⟨hclaim, hpos, hreserved, hunstored⟩, hcursor, _⟩ := hp
      exact ⟨⟨hclaim, hpos, hreserved, hunstored⟩, hcursor⟩
  | write item position => exact ⟨hp.1.complete_of_store item, hp.1.reserved⟩
  | clearFilled count =>
      simp only [ProducerGoesOn, stepProducer, ProducerFits, producerMark, Ledger.add,
        producer_setProducer_self r hid]
      refine ⟨⟨hp.1.claim, hp.1.pos, ?_, hp.1.unstored⟩, hp.2, trivial⟩
      rw [producer_setProducer_self r hid]
      exact hp.1.reserved
  | setReserved count =>
      refine .inr ⟨?_, ?_, ?_, ?_⟩ <;>
        simp only [stepProducer, producerMark, Ledger.add, producer_setProducer_self r hid]
      · exact hp.1.pos
      · exact hp.1.claim
      · exact hp.2.1
      · rw [hp.2.2, storedCount_eq_zero hp.1.unstored]
  | checkOffset item offset =>
      simp only [stepProducer, producerMark, Ledger.add]
      split
      · exact hp
      · rename_i hlt
        exact ⟨Between.filling hp (Nat.lt_of_not_le hlt), Nat.lt_of_not_le hlt⟩
  | readBase item offset => exact ⟨hp.1, Nat.le_add_right .., Nat.add_lt_add_left hp.2 _⟩
  | fill item position =>
      obtain ⟨hfilling, hb, hk⟩ := hp
      have hlap := hfilling.room.lap (k := position) (by omega)
      simp only [stepProducer, producerMark]
      -- The slot is empty exactly when nothing was stored for the position before.
      cases hst : l.stored position with
      | none =>
          rw [hs.slot_unstored hst hlap]
          refine ⟨hfilling.pos, hfilling.claim, hfilling.room, ?_⟩
          refine Eq.trans ?_ (storedCount_store_first hb hk hst id item).symm
          exact congrArg (· + 1) hfilling.filled
      | some x =>
          obtain ⟨j, a⟩ := x
          rw [hs.slot_stored hst (hs.taken_eq_false hfilling.claim hb hk)]
          refine .inr ⟨hfilling.pos, hfilling.claim, hfilling.room, ?_⟩
          exact hfilling.filled.trans (storedCount_store_again hst id item).symm
  | countFilled =>
      refine .inr ⟨?_, ?_, ?_, ?_⟩ <;>
        simp only [stepProducer, producerMark, Ledger.add, producer_setProducer_self r hid]
      · exact hp.pos
      · exact hp.claim
      · exact hp.room
      · exact hp.filled
  | readReserved => exact ⟨hp, rfl⟩
  | readFilled reserved =>
      simp only [stepProducer, producerMark, Ledger.add]
      split
      · exact hp.1
      · rename_i hfull
        exact hp.1.complete hs ((Decidable.not_not.mp hfull).trans hp.2.symm)
  | clearReserved =>
      simp only [ProducerGoesOn, stepProducer, ProducerFits, producer_setProducer_self r hid]
      exact ⟨hp, trivial⟩
  | clearCount =>
      simp only [ProducerGoesOn, stepProducer, ProducerFits, producer_setProducer_self r hid]
      exact hp
  | rest =>
      refine .inl ⟨by simp [producerMark, Ledger.add], ?_⟩
      simp only [stepProducer, setProducerCursor, producer_setProducer_self r hid]
      exact hp.2

/-! ## Steps of a consumer -/

/-- The slot of a published position that was not taken holds its item. -/
theorem holds_slot (hs : Sound l r) {id position : Nat} (hafter : After l id position)
    (hhead : position < r.head) (hpublished : l.Published position) :
    l.Holds position (r.slot position) := by
  obtain ⟨j, a, ho, hst⟩ := hs.exists_stored hhead hpublished
  exact ⟨j, a, hs.slot_stored hst hafter.2, ho, hst⟩

/-- A position below every claim under way is published. -/
theorem published_of_lt {position : Nat} (h : ∀ j b c, l.claim j = some (b, c) → position < b) :
    l.Published position :=
  fun hc hb => Nat.not_le_of_lt (h _ _ _ hc) hb.1

theorem stepConsumer_admits (hs : Sound l r) {id : Nat} {p : ConsumerPoint α}
    (hp : ConsumerFits l r id p) : l.Admits r.capacity (r.consumerMark id p) := by
  cases p with
  | claim =>
      refine ⟨hp.1, ?_⟩
      cases ht : l.taker r.tail with
      | none => rfl
      | some j => exact absurd (hs.taker_iff.mp ⟨j, ht⟩) (Nat.lt_irrefl _)
  | take position =>
      have hpublished : l.Published position := published_of_lt hp.2.2
      exact ⟨hp.1.1, hp.1.2, hpublished, holds_slot hs hp.1 hp.2.1 hpublished⟩
  | rest position item =>
      refine ⟨hp.1, ?_, hp.2.2⟩
      cases hr : l.returned position with
      | false => rfl
      | true => exact absurd hp.1 (hs.returned_unwanted hr id)
  | _ => trivial

theorem stepConsumer_advance (hs : Sound l r) {id : Nat} (hid : id < r.consumers.size)
    {p : ConsumerPoint α} (hp : ConsumerFits l r id p) :
    Advance ⟨.consumer, id⟩ l r (l.add (r.consumerMark id p)) (r.stepConsumer id p).1 := by
  cases p with
  | readTail => exact hs.advance_refl _
  | announce bound =>
      refine hs.advance_setConsumer hid fun k hw => ?_
      rw [hp.1] at hw
      cases hw
  | claim => exact hs.advance_want hid hp.1 hp.2
  | publish position =>
      refine hs.advance_setConsumer hid fun k hw => ?_
      rw [hp.1] at hw
      cases hw
      exact Nat.le_refl _
  | compare position =>
      simp only [stepConsumer, consumerMark, Ledger.add]
      split <;> exact hs.advance_refl _
  | readHead position => exact hs.advance_refl _
  | scan position floor next =>
      simp only [stepConsumer, consumerMark, Ledger.add]
      split <;> exact hs.advance_refl _
  | keep position floor => exact hs.advance_keepHead hp.2
  | take position => exact hs.advance_take hp.1 hp.2.1 (published_of_lt hp.2.2) _
  | rest position item => exact hs.advance_return hid hp.1 hp.2.1 item

/-- Where a call of a consumer is after a step, or that its role is between two calls. -/
def ConsumerGoesOn (l : Ledger α) (r : RingBuffer α) (id : Nat) :
    Progress (ConsumerPoint α) α → Prop
  | .next p => ConsumerFits l r id p
  | .ended _ => l.want id = none

theorem stepConsumer_fits (hs : Sound l r) {id : Nat} (hid : id < r.consumers.size)
    {p : ConsumerPoint α} (hp : ConsumerFits l r id p) :
    ConsumerGoesOn (l.add (r.consumerMark id p)) (r.stepConsumer id p).1 id
      (r.stepConsumer id p).2 := by
  cases p with
  | readTail => exact ⟨hp, Nat.le_refl _⟩
  | announce bound =>
      simp only [ConsumerGoesOn, stepConsumer, ConsumerFits, setConsumerCursor,
        consumer_setConsumer_self r hid]
      exact hp
  | claim =>
      refine ⟨by simp [consumerMark, Ledger.add], ?_⟩
      cases ht : l.taken r.tail with
      | false => exact ht
      | true => exact absurd (hs.taken_lt_tail ht) (Nat.lt_irrefl _)
  | publish position => exact hp
  | compare position =>
      simp only [stepConsumer, consumerMark, Ledger.add]
      split
      · exact hp
      · rename_i hlt
        have hlt := Nat.lt_of_not_le hlt
        exact ⟨hp, Nat.lt_of_lt_of_le hlt hs.firstHead_le_head,
          fun j b c hc => Nat.lt_of_lt_of_le hlt (hs.firstHead_le_claim hc)⟩
  | readHead position =>
      exact ⟨hp, Nat.le_refl _, fun _ _ _ hj => absurd hj (Nat.not_lt_zero _)⟩
  | scan position floor next =>
      obtain ⟨hafter, hfloor⟩ := hp
      simp only [stepConsumer, consumerMark, Ledger.add]
      split
      · refine ⟨hafter, Nat.le_trans (Nat.min_le_left ..) hfloor.1, fun j b c hj hc => ?_⟩
        by_cases hlast : j = next
        · subst hlast
          exact Nat.le_trans (Nat.min_le_right ..) (hs.cursor_le_claim hc)
        · exact Nat.le_trans (Nat.min_le_left ..) (hfloor.2 j b c (by omega) hc)
      · rename_i hall
        exact ⟨hafter, hfloor.1,
          fun j b c hj => hfloor.2 j b c (Nat.lt_of_lt_of_le hj (Nat.le_of_not_lt hall))⟩
  | keep position floor => exact hp.1
  | take position =>
      have hholds := holds_slot hs hp.1 hp.2.1 (published_of_lt hp.2.2)
      exact ⟨hp.1.1, by simp [consumerMark, Ledger.add], hholds⟩
  | rest position item => simp [ConsumerGoesOn, stepConsumer, consumerMark, Ledger.add]

end Lineage.RingBuffer

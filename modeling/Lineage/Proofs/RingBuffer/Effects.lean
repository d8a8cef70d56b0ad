import Lineage.Proofs.RingBuffer.Invariant

/-!
# What one step does to the state

A step does one of ten things to a ring buffer: nothing, a change of its own role, a claim, a want,
a new bound on one side or the other, an item put into a slot or taken out of it, and the end of a
claim or a want.  Each of them comes with a mark, and each is shown to lead from a state that is
`Sound` to one that is, and to leave the other roles what they know (`Advance`).
-/

namespace Lineage.RingBuffer

variable {α : Type}

/-! ## A part changed alone -/

section Parts

variable (r : RingBuffer α)

theorem producer_setProducer_self {id : Nat} (h : id < r.producers.size) (p : ProducerRole) :
    (r.setProducer id p).producer id = p := by
  rw [producer_setProducer r h, if_pos rfl]

theorem producer_setProducer_ne {id j : Nat} (h : j ≠ id) (p : ProducerRole) :
    (r.setProducer id p).producer j = r.producer j := by
  simp [producer, setProducer, Ne.symm h]

theorem consumer_setConsumer_self {id : Nat} (h : id < r.consumers.size) (c : ConsumerRole) :
    (r.setConsumer id c).consumer id = c := by
  rw [consumer_setConsumer r h, if_pos rfl]

theorem consumer_setConsumer_ne {id j : Nat} (h : j ≠ id) (c : ConsumerRole) :
    (r.setConsumer id c).consumer j = r.consumer j := by
  simp [consumer, setConsumer, Ne.symm h]

@[simp] theorem capacity_setSlot (k : Nat) (item : Option α) :
    (r.setSlot k item).capacity = r.capacity := rfl

@[simp] theorem size_slots_setSlot (k : Nat) (item : Option α) :
    (r.setSlot k item).slots.size = r.slots.size := by
  simp [setSlot]

end Parts

/-! ## A step of one role -/

/-- What a step of one role leads to. -/
structure Advance (role : Role) (l : Ledger α) (r : RingBuffer α) (l' : Ledger α)
    (r' : RingBuffer α) : Prop where
  sound : Sound l' r'
  grows : Grows l r l' r'
  producer : ∀ {id}, id ≠ role.id ∨ role.side = .consumer → SameProducer id l r l' r'
  consumer : ∀ {id}, id ≠ role.id ∨ role.side = .producer → SameConsumer id l r l' r'

theorem Grows.refl (l : Ledger α) (r : RingBuffer α) : Grows l r l r where
  capacity := rfl
  producers := rfl
  consumers := rfl
  head := Nat.le_refl _
  tail := Nat.le_refl _
  claim h := .inl h
  want h := .inl h
  owner h := h
  taken h := h
  stored _ := rfl

theorem SameProducer.refl (id : Nat) (l : Ledger α) (r : RingBuffer α) :
    SameProducer id l r l r :=
  ⟨rfl, rfl, rfl, rfl, fun _ => rfl⟩

theorem SameConsumer.refl (id : Nat) (l : Ledger α) (r : RingBuffer α) :
    SameConsumer id l r l r :=
  ⟨rfl, rfl, fun _ => rfl⟩

namespace Sound

variable {l : Ledger α} {r : RingBuffer α}

/-! ## Silent steps -/

theorem advance_refl (h : Sound l r) (role : Role) : Advance role l r l r where
  sound := h
  grows := .refl l r
  producer _ := .refl ..
  consumer _ := .refl ..

/-- A producer changes its own state.  Its cursor stays at or below its claim. -/
theorem advance_setProducer (h : Sound l r) {id : Nat} (hid : id < r.producers.size)
    {p : ProducerRole} (hcursor : ∀ b c, l.claim id = some (b, c) → p.cursor ≤ b) :
    Advance ⟨.producer, id⟩ l r l (r.setProducer id p) where
  sound :=
    { h with
      claim_lt := fun hc => by simpa using h.claim_lt hc
      cursor_le_claim := fun {j b c} hc => by
        by_cases hj : j = id
        · subst hj
          rw [producer_setProducer_self r hid]
          exact hcursor b c hc
        · rw [producer_setProducer_ne r hj]
          exact h.cursor_le_claim hc }
  grows := { Grows.refl l r with producers := producers_size_setProducer .. }
  producer {j} hj := by
    have hne : j ≠ id := hj.resolve_right (by simp)
    refine ⟨?_, ?_, ?_, rfl, fun _ => rfl⟩ <;> rw [producer_setProducer_ne r hne]
  consumer _ := ⟨rfl, rfl, fun _ => rfl⟩

/-- A consumer changes its own state.  Its cursor stays at or below its position. -/
theorem advance_setConsumer (h : Sound l r) {id : Nat} (hid : id < r.consumers.size)
    {c : ConsumerRole} (hcursor : ∀ k, l.want id = some k → c.cursor ≤ k) :
    Advance ⟨.consumer, id⟩ l r l (r.setConsumer id c) where
  sound :=
    { h with
      want_lt := fun hw => by simpa using h.want_lt hw
      cursor_le_want := fun {j k} hw => by
        by_cases hj : j = id
        · subst hj
          rw [consumer_setConsumer_self r hid]
          exact hcursor k hw
        · rw [consumer_setConsumer_ne r hj]
          exact h.cursor_le_want hw }
  grows := { Grows.refl l r with consumers := consumers_size_setConsumer .. }
  producer _ := ⟨rfl, rfl, rfl, rfl, fun _ => rfl⟩
  consumer {j} hj := by
    have hne : j ≠ id := hj.resolve_right (by simp)
    refine ⟨?_, rfl, fun _ => rfl⟩
    rw [consumer_setConsumer_ne r hne]

/-- A producer keeps a bound for the wants. -/
theorem advance_keepTail (h : Sound l r) {id floor : Nat}
    (hfloor : FloorOfWants l r floor r.consumers.size) :
    Advance ⟨.producer, id⟩ l r l { r with lastTail := floor } where
  sound :=
    { h with
      lastTail_le_tail := hfloor.1
      lastTail_le_want := fun hw => hfloor.2 _ _ (h.want_lt hw) hw }
  grows := { Grows.refl l r with }
  producer _ := ⟨rfl, rfl, rfl, rfl, fun _ => rfl⟩
  consumer _ := ⟨rfl, rfl, fun _ => rfl⟩

/-- A consumer keeps a bound for the claims. -/
theorem advance_keepHead (h : Sound l r) {id floor : Nat}
    (hfloor : FloorOfClaims l r floor r.producers.size) :
    Advance ⟨.consumer, id⟩ l r l { r with firstHead := floor } where
  sound :=
    { h with
      firstHead_le_head := hfloor.1
      firstHead_le_claim := fun hc => hfloor.2 _ _ _ (h.claim_lt hc) hc }
  grows := { Grows.refl l r with }
  producer _ := ⟨rfl, rfl, rfl, rfl, fun _ => rfl⟩
  consumer _ := ⟨rfl, rfl, fun _ => rfl⟩

/-! ## Claims -/

/-- A producer claims the next positions. -/
theorem advance_claim (h : Sound l r) {id count : Nat} (hid : id < r.producers.size)
    (hfree : l.claim id = none) (hcursor : (r.producer id).cursor ≤ r.head) :
    Advance ⟨.producer, id⟩ l r (l.add (.claimed id r.head count))
      { r with head := r.head + count } where
  sound :=
    { h with
      claim_lt := fun {j b c} hc => by
        rcases Ledger.claim_of_claimed hc with ⟨rfl, rfl, rfl⟩ | ⟨_, hc⟩
        · exact hid
        · exact h.claim_lt hc
      claim_le_head := fun {j b c} hc => by
        rcases Ledger.claim_of_claimed hc with ⟨rfl, rfl, rfl⟩ | ⟨_, hc⟩
        · exact Nat.le_refl _
        · exact Nat.le_trans (h.claim_le_head hc) (Nat.le_add_right ..)
      claim_owner := fun {j b c} hc k hb hk => by
        rcases Ledger.claim_of_claimed hc with ⟨rfl, rfl, rfl⟩ | ⟨_, hc⟩
        · simp [Ledger.add, hb, hk]
        · have hlt := h.claim_le_head hc
          simp only [Ledger.add]
          rw [if_neg (by omega)]
          exact h.claim_owner hc k hb hk
      owner_iff := fun {k} => by
        simp only [Ledger.add]
        split
        · simp; omega
        · rw [h.owner_iff]
          omega
      covered_or_stored := fun {k j} ho => by
        simp only [Ledger.add] at ho ⊢
        split at ho
        · rename_i hk
          cases ho
          exact .inl ⟨r.head, count, by simp, hk⟩
        · cases h.covered_or_stored ho with
          | inl hc =>
              obtain ⟨b, c, hc, hk⟩ := hc
              have hne : j ≠ id := by
                rintro rfl
                rw [hfree] at hc
                cases hc
              exact .inl ⟨b, c, by simpa [hne] using hc, hk⟩
          | inr hs => exact .inr hs
      stored_owner := fun {k j a} hs => by
        have ho := h.stored_owner hs
        have hlt := h.owner_iff.mp ⟨j, ho⟩
        simp only [Ledger.add]
        rw [if_neg (by omega)]
        exact ho
      taken_published := fun {k} ht j b c hc => by
        rcases Ledger.claim_of_claimed hc with ⟨rfl, rfl, rfl⟩ | ⟨_, hc⟩
        · obtain ⟨x, hx⟩ := h.taken_stored ht
          have hlt := h.owner_iff.mp ⟨x.1, h.stored_owner hx⟩
          omega
        · exact h.taken_published ht hc
      cursor_le_claim := fun {j b c} hc => by
        rcases Ledger.claim_of_claimed hc with ⟨rfl, rfl, rfl⟩ | ⟨_, hc⟩
        · exact hcursor
        · exact h.cursor_le_claim hc
      firstHead_le_head := Nat.le_trans h.firstHead_le_head (Nat.le_add_right ..)
      firstHead_le_claim := fun {j b c} hc => by
        rcases Ledger.claim_of_claimed hc with ⟨rfl, rfl, rfl⟩ | ⟨_, hc⟩
        · exact h.firstHead_le_head
        · exact h.firstHead_le_claim hc }
  grows :=
    { Grows.refl l r with
      head := Nat.le_add_right ..
      claim := fun {j b c} hc => by
        rcases Ledger.claim_of_claimed hc with ⟨rfl, rfl, rfl⟩ | ⟨_, hc⟩
        · exact .inr (Nat.le_refl _)
        · exact .inl hc
      owner := fun {k j} ho => by
        have hlt := h.owner_iff.mp ⟨j, ho⟩
        simp only [Ledger.add]
        rw [if_neg (by omega)]
        exact ho }
  producer {j} hj := by
    have hne : j ≠ id := hj.resolve_right (by simp)
    exact ⟨rfl, rfl, rfl, by simp [Ledger.add, hne], fun _ => rfl⟩
  consumer _ := ⟨rfl, rfl, fun _ => rfl⟩

/-- A producer shows that the items of its claim are there. -/
theorem advance_publish (h : Sound l r) {id : Nat} (hid : id < r.producers.size)
    (hall : Complete l id) :
    Advance ⟨.producer, id⟩ l r (l.add (.published id)) (r.setProducerCursor id atRest) where
  sound :=
    { h with
      claim_lt := fun hc => by
        simpa [setProducerCursor] using h.claim_lt (Ledger.claim_of_published hc).2
      claim_le_head := fun hc => h.claim_le_head (Ledger.claim_of_published hc).2
      claim_owner := fun hc => h.claim_owner (Ledger.claim_of_published hc).2
      covered_or_stored := fun {k j} ho => by
        simp only [Ledger.add] at ho ⊢
        cases h.covered_or_stored ho with
        | inl hc =>
            obtain ⟨b, c, hc, hb, hk⟩ := hc
            by_cases hj : j = id
            · subst hj
              exact .inr (hall b c hc k hb hk)
            · exact .inl ⟨b, c, by simpa [hj] using hc, hb, hk⟩
        | inr hs => exact .inr hs
      taken_published := fun ht _ _ _ hc => h.taken_published ht (Ledger.claim_of_published hc).2
      cursor_le_claim := fun {j b c} hc => by
        obtain ⟨hj, hc⟩ := Ledger.claim_of_published hc
        rw [setProducerCursor, producer_setProducer_ne r hj]
        exact h.cursor_le_claim hc
      firstHead_le_claim := fun hc => h.firstHead_le_claim (Ledger.claim_of_published hc).2 }
  grows :=
    { Grows.refl l r with
      producers := producers_size_setProducer ..
      claim := fun hc => .inl (Ledger.claim_of_published hc).2 }
  producer {j} hj := by
    have hne : j ≠ id := hj.resolve_right (by simp)
    refine ⟨?_, ?_, ?_, by simp [Ledger.add, hne], fun _ => rfl⟩ <;>
      rw [setProducerCursor, producer_setProducer_ne r hne]
  consumer _ := ⟨rfl, rfl, fun _ => rfl⟩

/-! ## Wants -/

/-- A consumer claims the next position. -/
theorem advance_want (h : Sound l r) {id : Nat} (hid : id < r.consumers.size)
    (hfree : l.want id = none) (hcursor : (r.consumer id).cursor ≤ r.tail) :
    Advance ⟨.consumer, id⟩ l r (l.add (.wanted id r.tail)) { r with tail := r.tail + 1 } where
  sound :=
    { h with
      want_lt := fun {j k} hw => by
        rcases Ledger.want_of_wanted hw with ⟨rfl, rfl⟩ | ⟨_, hw⟩
        · exact hid
        · exact h.want_lt hw
      want_taker := fun {j k} hw => by
        rcases Ledger.want_of_wanted hw with ⟨rfl, rfl⟩ | ⟨_, hw⟩
        · simp [Ledger.add]
        · have ht := h.want_taker hw
          have hlt := h.taker_iff.mp ⟨j, ht⟩
          simp only [Ledger.add]
          rw [if_neg (by omega)]
          exact ht
      taker_iff := fun {k} => by
        simp only [Ledger.add]
        split
        · simp; omega
        · rw [h.taker_iff]
          omega
      taken_lt_tail := fun ht => Nat.lt_succ_of_lt (h.taken_lt_tail ht)
      taken_or_wanted := fun {k} hk => by
        simp only [Ledger.add]
        by_cases hlast : k = r.tail
        · exact .inr ⟨id, by simp [hlast]⟩
        · cases h.taken_or_wanted (Nat.lt_of_le_of_ne (Nat.le_of_lt_succ hk) hlast) with
          | inl ht => exact .inl ht
          | inr hw =>
              obtain ⟨j, hw⟩ := hw
              have hne : j ≠ id := by
                rintro rfl
                rw [hfree] at hw
                cases hw
              exact .inr ⟨j, by simpa [hne] using hw⟩
      returned_lt_tail := fun hr => Nat.lt_succ_of_lt (h.returned_lt_tail hr)
      returned_unwanted := fun {k} hr j hw => by
        rcases Ledger.want_of_wanted hw with ⟨rfl, rfl⟩ | ⟨_, hw⟩
        · exact Nat.lt_irrefl _ (h.returned_lt_tail hr)
        · exact h.returned_unwanted hr j hw
      cursor_le_want := fun {j k} hw => by
        rcases Ledger.want_of_wanted hw with ⟨rfl, rfl⟩ | ⟨_, hw⟩
        · exact hcursor
        · exact h.cursor_le_want hw
      lastTail_le_tail := Nat.le_succ_of_le h.lastTail_le_tail
      lastTail_le_want := fun {j k} hw => by
        rcases Ledger.want_of_wanted hw with ⟨rfl, rfl⟩ | ⟨_, hw⟩
        · exact h.lastTail_le_tail
        · exact h.lastTail_le_want hw }
  grows :=
    { Grows.refl l r with
      tail := Nat.le_succ _
      want := fun {j k} hw => by
        rcases Ledger.want_of_wanted hw with ⟨rfl, rfl⟩ | ⟨_, hw⟩
        · exact .inr (Nat.le_refl _)
        · exact .inl hw }
  producer _ := ⟨rfl, rfl, rfl, rfl, fun _ => rfl⟩
  consumer {j} hj := by
    have hne : j ≠ id := hj.resolve_right (by simp)
    exact ⟨rfl, by simp [Ledger.add, hne], fun _ => rfl⟩

/-- A consumer whose item is out of its slot comes to rest. -/
theorem advance_return (h : Sound l r) {id position : Nat} (hid : id < r.consumers.size)
    (hwant : l.want id = some position) (htaken : l.taken position = true) (item : Option α) :
    Advance ⟨.consumer, id⟩ l r (l.add (.returned id position item))
      (r.setConsumerCursor id atRest) where
  sound :=
    { h with
      want_lt := fun hw => by
        simpa [setConsumerCursor] using h.want_lt (Ledger.want_of_returned hw).2
      want_taker := fun hw => h.want_taker (Ledger.want_of_returned hw).2
      taken_or_wanted := fun {k} hk => by
        simp only [Ledger.add]
        cases h.taken_or_wanted hk with
        | inl ht => exact .inl ht
        | inr hw =>
            obtain ⟨j, hw⟩ := hw
            by_cases hj : j = id
            · subst hj
              rw [hwant] at hw
              cases hw
              exact .inl htaken
            · exact .inr ⟨j, by simpa [hj] using hw⟩
      returned_lt_tail := fun {k} hr => by
        rcases Ledger.returned_of_returned hr with rfl | hr
        · exact h.taken_lt_tail htaken
        · exact h.returned_lt_tail hr
      returned_unwanted := fun {k} hr j hw => by
        obtain ⟨hj, hold⟩ := Ledger.want_of_returned hw
        rcases Ledger.returned_of_returned hr with rfl | hr
        · have htaker := (h.want_taker hold).symm.trans (h.want_taker hwant)
          exact hj (Option.some.inj htaker)
        · exact h.returned_unwanted hr j hold
      cursor_le_want := fun {j k} hw => by
        obtain ⟨hj, hw⟩ := Ledger.want_of_returned hw
        rw [setConsumerCursor, consumer_setConsumer_ne r hj]
        exact h.cursor_le_want hw
      lastTail_le_want := fun hw => h.lastTail_le_want (Ledger.want_of_returned hw).2 }
  grows :=
    { Grows.refl l r with
      consumers := consumers_size_setConsumer ..
      want := fun hw => .inl (Ledger.want_of_returned hw).2 }
  producer _ := ⟨rfl, rfl, rfl, rfl, fun _ => rfl⟩
  consumer {j} hj := by
    have hne : j ≠ id := hj.resolve_right (by simp)
    refine ⟨?_, by simp [Ledger.add, hne], fun _ => rfl⟩
    rw [setConsumerCursor, consumer_setConsumer_ne r hne]

/-! ## Slots -/

theorem mod_lt_size (h : Sound l r) (k : Nat) : k % r.capacity < r.slots.size := by
  rw [h.size_slots]
  exact Nat.mod_lt _ h.capacity_pos

/-- A producer puts an item into the slot of a position of its claim. -/
theorem advance_store (h : Sound l r) {id base count position : Nat}
    (hclaim : l.claim id = some (base, count)) (hbase : base ≤ position)
    (hlt : position < base + count)
    (hroom : ∀ j, j < position → j % r.capacity = position % r.capacity → l.taken j = true)
    (item : α) :
    Advance ⟨.producer, id⟩ l r (l.add (.stored id position item))
      (r.setSlot position (some item)) where
  sound :=
    { h with
      size_slots := by simpa using h.size_slots
      covered_or_stored := fun {k j} ho => by
        simp only [Ledger.add] at ho ⊢
        cases h.covered_or_stored ho with
        | inl hc => exact .inl hc
        | inr hs =>
            obtain ⟨a, hs⟩ := hs
            by_cases hk : k = position
            · subst hk
              have howner := h.claim_owner hclaim k hbase hlt
              rw [howner] at ho
              cases ho
              exact .inr ⟨item, by simp⟩
            · exact .inr ⟨a, by simpa [hk] using hs⟩
      stored_owner := fun {k j a} hs => by
        rcases Ledger.stored_of_stored hs with ⟨rfl, hx⟩ | ⟨_, hs⟩
        · cases hx
          exact h.claim_owner hclaim k hbase hlt
        · exact h.stored_owner hs
      stored_room := fun {k x} hs => by
        rcases Ledger.stored_of_stored hs with ⟨rfl, _⟩ | ⟨_, hs⟩
        · exact hroom
        · exact h.stored_room hs
      taken_stored := fun {k} ht => by
        simp only [Ledger.add]
        split
        · exact ⟨_, rfl⟩
        · exact h.taken_stored ht
      slot_stored := fun {k j a} hs ht => by
        simp only [Ledger.add] at ht
        rw [slot_setSlot r (h.mod_lt_size position)]
        rcases Ledger.stored_of_stored hs with ⟨rfl, hx⟩ | ⟨hk, hs⟩
        · cases hx
          simp
        · rw [if_neg (h.slot_alone hk hs ht (h.taken_eq_false hclaim hbase hlt) hroom)]
          exact h.slot_stored hs ht
      slot_unstored := fun {k} hs hlaps => by
        simp only [Ledger.add] at hs
        rw [slot_setSlot r (h.mod_lt_size position)]
        split at hs
        · cases hs
        · rename_i hk
          rw [if_neg]
          · exact h.slot_unstored hs hlaps
          · intro hmod
            rcases Nat.lt_or_gt_of_ne hk with hlt' | hgt
            · obtain ⟨x, hx⟩ := h.taken_stored (hroom k hlt' hmod)
              rw [hs] at hx
              cases hx
            · have htp := hlaps position hgt hmod.symm
              simp only [Ledger.add] at htp
              rw [h.taken_eq_false hclaim hbase hlt] at htp
              cases htp }
  grows :=
    { Grows.refl l r with
      stored := fun {k} ht => by
        have hne : k ≠ position := by
          rintro rfl
          rw [h.taken_eq_false hclaim hbase hlt] at ht
          cases ht
        simp [Ledger.add, hne] }
  producer {j} hj := by
    have hne : j ≠ id := hj.resolve_right (by simp)
    refine ⟨rfl, rfl, rfl, rfl, fun {k} ho => ?_⟩
    have hk : k ≠ position := by
      rintro rfl
      rw [h.claim_owner hclaim k hbase hlt] at ho
      exact hne (Option.some.inj ho).symm
    simp [Ledger.add, hk]
  consumer _ := ⟨rfl, rfl, fun _ => rfl⟩

/-- A consumer takes the item of its published position out of the slot. -/
theorem advance_take (h : Sound l r) {id position : Nat} (hafter : After l id position)
    (hhead : position < r.head) (hpublished : l.Published position) (item : Option α) :
    Advance ⟨.consumer, id⟩ l r (l.add (.took id position item)) (r.setSlot position none) where
  sound :=
    { h with
      size_slots := by simpa using h.size_slots
      stored_room := fun hs j hj hmod =>
        Ledger.taken_took_of_taken (h.stored_room hs j hj hmod)
      taken_stored := fun {k} ht => by
        rcases Ledger.taken_of_took ht with rfl | ht
        · obtain ⟨i, a, _, hs⟩ := h.exists_stored hhead hpublished
          exact ⟨_, hs⟩
        · exact h.taken_stored ht
      taken_published := fun {k} ht => by
        rcases Ledger.taken_of_took ht with rfl | ht
        · exact hpublished
        · exact h.taken_published ht
      taken_lt_tail := fun {k} ht => by
        rcases Ledger.taken_of_took ht with rfl | ht
        · exact h.taker_iff.mp ⟨id, h.want_taker hafter.1⟩
        · exact h.taken_lt_tail ht
      taken_or_wanted := fun {k} hk => by
        simp only [Ledger.add]
        split
        · exact .inl rfl
        · exact h.taken_or_wanted hk
      slot_stored := fun {k j a} hs ht => by
        simp only [Ledger.add] at hs ht
        split at ht
        · cases ht
        · rename_i hk
          obtain ⟨i, b, _, hsp⟩ := h.exists_stored hhead hpublished
          rw [slot_setSlot r (h.mod_lt_size position),
            if_neg (h.slot_alone hk hs ht hafter.2 (h.stored_room hsp))]
          exact h.slot_stored hs ht
      slot_unstored := fun {k} hs hlaps => by
        rw [slot_setSlot r (h.mod_lt_size position)]
        split
        next => rfl
        next hmod =>
          refine h.slot_unstored hs fun j hj hjk => ?_
          rcases Ledger.taken_of_took (hlaps j hj hjk) with rfl | htj
          · exact absurd hjk.symm hmod
          · exact htj }
  grows :=
    { Grows.refl l r with
      taken := Ledger.taken_took_of_taken }
  producer _ := ⟨rfl, rfl, rfl, rfl, fun _ => rfl⟩
  consumer {j} hj := by
    have hne : j ≠ id := hj.resolve_right (by simp)
    refine ⟨rfl, rfl, fun {k} ho => ?_⟩
    have hk : k ≠ position := by
      rintro rfl
      rw [h.want_taker hafter.1] at ho
      exact hne (Option.some.inj ho).symm
    simp [Ledger.add, hk]

end Sound

end Lineage.RingBuffer

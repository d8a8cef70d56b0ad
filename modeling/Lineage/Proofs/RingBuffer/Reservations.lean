import Lineage.Proofs.RingBuffer.Diary

/-!
# The diary of one producer

The diary of a transcript agrees with the ledger of its marks.  `Noted` says how, for each point of
a producer's call, and `Keeps` says so between two calls.  The steps of a producer keep its part
(`stepProducer_noted`), and those of others do not touch it (`Noted.frame`).  The diary admits its
steps (`stepProducer_diary_admits`).
-/

namespace Lineage.RingBuffer

variable {α : Type}

/-! ## One producer -/

/-- The ledger has the claim of an open reservation, and what was filled in. -/
def Tallies (l : Ledger α) (id : Nat) (open? : Option (Reservation α)) : Prop :=
  ∀ res, open? = some res → l.claim id = some (res.base, res.count) ∧
    ∀ k, k < res.count → res.fills k = (l.stored (res.base + k)).map Prod.snd

theorem tallies_none {l : Ledger α} {id : Nat} : Tallies l id none := fun res hres => by cases hres

/-- A producer between two calls counts the positions of its open reservation, or none. -/
def Keeps (l : Ledger α) (r : RingBuffer α) (id : Nat) (open? : Option (Reservation α)) : Prop :=
  Tallies l id open? ∧ (r.producer id).reserved = open?.elim 0 Reservation.count

/-- The call that makes a claim. -/
def Claim.call : Claim α → ProducerCall α
  | .push item => .push item
  | .reserve count => .reserve count

/-- The reservation that a claim opens. -/
def Claim.reservation (base : Nat) : Claim α → Option (Reservation α)
  | .push _ => none
  | .reserve count => some { base := base, count := count }

/-- What the diary has of a producer at a point of a call: the call it has asked for and its
reservation. -/
def Noted (l : Ledger α) (r : RingBuffer α) (id : Nat) (call : Option (ProducerCall α))
    (open? : Option (Reservation α)) : ProducerPoint α → Prop
  | .check c => call = some c.call ∧ Keeps l r id open?
  | .readHead c | .announce c _ | .claim c => call = some c.call ∧ open? = none
  | .publish c base | .compare c base | .readTail c base | .scan c base _ _ | .keep c base _ =>
      call = some c.call ∧ open? = c.reservation base
  | .write .. => (∃ item, call = some (.push item)) ∧ open? = none
  | .clearFilled count | .setReserved count =>
      call = some (.reserve count) ∧
        open? = some { base := (r.producer id).cursor, count := count }
  | .checkOffset item offset | .readBase item offset =>
      call = some (.fill item offset) ∧ Keeps l r id open?
  | .fill item position =>
      ∃ offset, call = some (.fill item offset) ∧ position = (r.producer id).cursor + offset ∧
        Keeps l r id open?
  -- The item is there, and the diary will have it when the call ends.
  | .countFilled =>
      ∃ item offset, call = some (.fill item offset) ∧ offset < (r.producer id).reserved ∧
        Keeps l r id (open?.map fun res => res.fill offset item)
  | .readReserved | .readFilled _ => call = some .release ∧ Keeps l r id open?
  | .clearReserved | .clearCount => call = some .release ∧ Tallies l id open?
  | .rest =>
      (∃ item, call = some (.push item)) ∧ open? = none ∨
        call = some .release ∧ Tallies l id open?

/-- Between two calls nothing more is noted than at the start of one. -/
theorem Keeps.start {l : Ledger α} {r : RingBuffer α} {id : Nat} {open? : Option (Reservation α)}
    (h : Keeps l r id open?) (call : ProducerCall α) :
    Noted l r id (some call) open? call.start := by
  cases call <;> exact ⟨rfl, h⟩

section Frame

variable {l l' : Ledger α} {r r' : RingBuffer α} {id : Nat} {call : Option (ProducerCall α)}
  {open? : Option (Reservation α)}

theorem Tallies.frame (hs : Sound l r) (s : SameProducer id l r l' r') (h : Tallies l id open?) :
    Tallies l' id open? := by
  intro res hres
  obtain ⟨hclaim, hfills⟩ := h res hres
  refine ⟨s.claim.trans hclaim, fun k hk => ?_⟩
  rw [s.stored (hs.claim_owner hclaim _ (Nat.le_add_right ..) (Nat.add_lt_add_left hk _))]
  exact hfills k hk

theorem Keeps.frame (hs : Sound l r) (s : SameProducer id l r l' r') (h : Keeps l r id open?) :
    Keeps l' r' id open? :=
  ⟨h.1.frame hs s, s.reserved.trans h.2⟩

/-- The steps of others keep what is noted of a producer. -/
theorem Noted.frame (hs : Sound l r) (s : SameProducer id l r l' r') {p : ProducerPoint α}
    (h : Noted l r id call open? p) : Noted l' r' id call open? p := by
  cases p with
  | check c => exact ⟨h.1, h.2.frame hs s⟩
  | clearFilled count | setReserved count =>
      unfold Noted
      rw [s.cursor]
      exact h
  | checkOffset item offset | readBase item offset => exact ⟨h.1, h.2.frame hs s⟩
  | fill item position =>
      obtain ⟨offset, hcall, hposition, hkeeps⟩ := h
      exact ⟨offset, hcall, hposition.trans (by rw [s.cursor]), hkeeps.frame hs s⟩
  | countFilled =>
      obtain ⟨item, offset, hcall, hlt, hkeeps⟩ := h
      exact ⟨item, offset, hcall, s.reserved ▸ hlt, hkeeps.frame hs s⟩
  | readReserved | readFilled => exact ⟨h.1, h.2.frame hs s⟩
  | clearReserved | clearCount => exact ⟨h.1, h.2.frame hs s⟩
  | rest => exact h.imp_right fun hrelease => ⟨hrelease.1, hrelease.2.frame hs s⟩
  | _ => exact h

end Frame

/-! ## The steps of one producer -/

/-- What is said when this is left of a producer's call. -/
def Progress.word (id : Nat) : Progress (ProducerPoint α) α → Word α
  | .next _ => .nothing
  | .ended o => .ends ⟨.producer, id⟩ o

/-- What is noted of a producer when this is left of its call. -/
def NotedOn (l : Ledger α) (r : RingBuffer α) (id : Nat) (call : Option (ProducerCall α))
    (open? : Option (Reservation α)) : Progress (ProducerPoint α) α → Prop
  | .next p => Noted l r id call open? p
  | .ended _ => Keeps l r id open?

section Steps

variable {l : Ledger α} {r : RingBuffer α} {d : Diary α} {id : Nat}

/-- A producer without a claim has no reservation. -/
theorem Tallies.eq_none {open? : Option (Reservation α)} (h : Tallies l id open?)
    (hidle : l.claim id = none) :
    open? = none := by
  cases open? with
  | none => rfl
  | some res =>
      have hclaim := (h res rfl).1
      rw [hidle] at hclaim
      cases hclaim

/-- The end of a push or a reserve changes nothing in the diary. -/
theorem hear_claim {c : Claim α} (h : d.call id = some c.call) (o : Outcome α) :
    d.hear (.ends ⟨.producer, id⟩ o) = d := by
  cases c <;> simp only [Diary.hear, h, Claim.call]

/-- Where a reserved position is stored, the reservation has it filled in. -/
theorem Keeps.fill {open? : Option (Reservation α)} (h : Keeps l r id open?)
    (hfilling : Filling l r id 0) (offset : Nat) (item : α) :
    Keeps (l.add (.stored id ((r.producer id).cursor + offset) item))
      (r.setSlot ((r.producer id).cursor + offset) (some item)) id
      (open?.map fun res => res.fill offset item) := by
  cases open? with
  | none => exact ⟨tallies_none, h.2⟩
  | some res =>
      refine ⟨fun res' hres' => ?_, h.2⟩
      cases hres'
      obtain ⟨hclaim, hfills⟩ := h.1 res rfl
      have hbase := hclaim.symm.trans hfilling.claim
      refine ⟨hclaim, fun k hk => ?_⟩
      simp only [Option.some.injEq, Prod.mk.injEq] at hbase
      simp only [Reservation.fill, Ledger.add, ← hbase.1, Nat.add_left_cancel_iff]
      split
      · rfl
      · exact hfills k hk

/-- A step of a producer keeps what is noted of it. -/
theorem stepProducer_noted (hs : Sound l r) (hid : id < r.producers.size) {p : ProducerPoint α}
    (hp : ProducerFits l r id p) (hn : Noted l r id (d.call id) (d.reservation id) p) :
    let d' := d.add (r.producerMark id p, (r.stepProducer id p).2.word id)
    NotedOn (l.add (r.producerMark id p)) (r.stepProducer id p).1 id
      (d'.call id) (d'.reservation id)
      (r.stepProducer id p).2 := by
  cases p with
  | check c =>
      obtain ⟨hcall, hkeeps⟩ := hn
      simp only [stepProducer]
      cases hcheck : r.checkClaim id c with
      | error m =>
          simp only [Progress.word, Diary.add]
          rw [show d.note _ = d from rfl, hear_claim hcall]
          exact hkeeps
      | ok u =>
          have hidle := Between.idle hp (checkClaim_ok hs hcheck).1
          exact ⟨hcall, hkeeps.1.eq_none hidle.1⟩
  | readHead c => exact hn
  | announce c bound => exact hn
  | claim c =>
      obtain ⟨hcall, hnone⟩ := hn
      cases c with
      | push item =>
          have hsame : d.note (.claimed id r.head 1) = d := by
            simp only [Diary.note, hcall, Claim.call]
          simp only [stepProducer, producerMark, Claim.size, Progress.word, Diary.add, hsame]
          exact ⟨hcall, hnone⟩
      | reserve count =>
          have hopens : d.note (.claimed id r.head count) =
              d.setReservation id (some { base := r.head, count := count }) := by
            simp only [Diary.note, hcall, Claim.call]
          simp only [stepProducer, producerMark, Claim.size, Progress.word, Diary.add, hopens]
          exact ⟨hcall, if_pos rfl⟩
  | publish c base => exact hn
  | compare c base =>
      obtain ⟨hcall, hopen⟩ := hn
      simp only [stepProducer]
      split
      · exact ⟨hcall, hopen⟩
      · cases c with
        | push item => exact ⟨⟨item, hcall⟩, hopen⟩
        | reserve count => exact ⟨hcall, hopen.trans (by rw [hp.2]; rfl)⟩
  | readTail c base => exact hn
  | scan c base floor next =>
      simp only [stepProducer]
      split <;> exact hn
  | keep c base floor => exact hn
  | write item position => exact .inl hn
  | clearFilled count =>
      refine ⟨hn.1, hn.2.trans ?_⟩
      simp only [stepProducer, producer_setProducer_self r hid]
  | setReserved count =>
      obtain ⟨hcall, hopen⟩ := hn
      obtain ⟨hfresh, -, -⟩ := hp
      simp only [stepProducer, Progress.word, Diary.add]
      rw [show d.note _ = d from rfl, hear_claim (c := .reserve count) hcall, hopen]
      refine ⟨fun res hres => ?_, ?_⟩
      · cases hres
        refine ⟨hfresh.claim, fun k hk => ?_⟩
        have hnone := hfresh.unstored _ (Nat.le_add_right ..) (Nat.add_lt_add_left hk _)
        exact (congrArg (Option.map Prod.snd) hnone).symm
      · rw [producer_setProducer_self r hid]
        rfl
  | checkOffset item offset =>
      obtain ⟨hcall, hkeeps⟩ := hn
      simp only [stepProducer]
      split
      · have hsame : d.hear (.ends ⟨.producer, id⟩ (.filled false)) = d := by
          simp only [Diary.hear, hcall]
        simp only [Progress.word, Diary.add]
        rw [show d.note _ = d from rfl, hsame]
        exact hkeeps
      · exact ⟨hcall, hkeeps⟩
  | readBase item offset => exact ⟨offset, hn.1, rfl, hn.2⟩
  | fill item position =>
      obtain ⟨offset, hcall, rfl, hkeeps⟩ := hn
      obtain ⟨hfilling, -, hlt⟩ := hp
      have hfilled := hkeeps.fill hfilling offset item
      simp only [stepProducer]
      split
      · exact ⟨item, offset, hcall, Nat.lt_of_add_lt_add_left hlt, hfilled⟩
      · simp only [Progress.word, Diary.add]
        rw [show d.note _ = d from rfl, Diary.reservation_hear_filled hcall]
        exact hfilled
  | countFilled =>
      obtain ⟨item, offset, hcall, hlt, hkeeps⟩ := hn
      simp only [stepProducer, Progress.word, Diary.add]
      rw [show d.note _ = d from rfl, Diary.reservation_hear_filled hcall]
      refine ⟨hkeeps.1, ?_⟩
      rw [producer_setProducer_self r hid]
      exact hkeeps.2
  | readReserved => exact hn
  | readFilled reserved =>
      obtain ⟨hcall, hkeeps⟩ := hn
      simp only [stepProducer]
      split
      · have hsame : d.hear (.ends ⟨.producer, id⟩
            (.misuse (.releaseUnfilled id (r.producer id).filled reserved))) = d := by
          simp only [Diary.hear, hcall]
        simp only [Progress.word, Diary.add]
        rw [show d.note _ = d from rfl, hsame]
        exact hkeeps
      · exact ⟨hcall, hkeeps.1⟩
  | clearReserved => exact hn
  | clearCount => exact .inr hn
  | rest =>
      have hreserved : ((r.setProducerCursor id atRest).producer id).reserved = 0 := by
        rw [setProducerCursor, producer_setProducer_self r hid]
        exact hp.2
      have hnone : ((d.hear (.ends ⟨.producer, id⟩ .done)).reservation id) = none := by
        rcases hn with ⟨⟨item, hcall⟩, hnone⟩ | ⟨hcall, -⟩
        · rw [hear_claim (c := .push item) hcall]
          exact hnone
        · simp only [Diary.hear, hcall, Diary.reservation_close_self]
      simp only [stepProducer, Progress.word, Diary.add]
      rw [show d.note _ = d from rfl, hnone]
      exact ⟨tallies_none, hreserved⟩

/-- The diary counts as many offsets with something filled in as the ledger. -/
theorem Tallies.filledCount_eq {res : Reservation α} (h : Tallies l id (some res)) :
    res.filledCount = l.storedCount res.base res.count := by
  refine List.countP_congr fun k hk => ?_
  rw [(h res rfl).2 k (List.mem_range.mp hk), Option.isSome_map]

theorem Reservation.filledCount_eq_count_iff {res : Reservation α} :
    res.filledCount = res.count ↔ res.IsComplete := by
  have hlength :=
    List.countP_eq_length (p := fun k => (res.fills k).isSome) (l := List.range res.count)
  rw [List.length_range] at hlength
  exact hlength.trans ⟨fun h k hk => h k (List.mem_range.mpr hk),
    fun h k hk => h k (List.mem_range.mp hk)⟩

/-- A producer that has all its items has filled in all of its reservation. -/
theorem Tallies.isComplete {res : Reservation α} (h : Tallies l id (some res))
    (hall : Complete l id) :
    res.IsComplete := by
  obtain ⟨hclaim, hfills⟩ := h res rfl
  intro k hk
  obtain ⟨a, ha⟩ :=
    hall _ _ hclaim (res.base + k) (Nat.le_add_right ..) (Nat.add_lt_add_left hk _)
  rw [hfills k hk, ha]
  rfl

/-- A release that finds positions without an item says how many the reservation has. -/
theorem Tallies.answers_unfilled {res : Reservation α} (h : Tallies l id (some res))
    (hbetween : Between l r id) (hunfilled : (r.producer id).filled ≠ (r.producer id).reserved) :
    ¬ res.IsComplete ∧ (r.producer id).filled = res.filledCount ∧
      (r.producer id).reserved = res.count := by
  rcases hbetween with hidle | hfilling
  · cases h.eq_none hidle.1
  · have hclaim := (h res rfl).1.symm.trans hfilling.claim
    simp only [Option.some.injEq, Prod.mk.injEq] at hclaim
    have hfilled := hfilling.filled
    rw [Nat.add_zero, ← hclaim.1, ← hclaim.2, ← h.filledCount_eq] at hfilled
    refine ⟨fun hcomplete => ?_, hfilled, hclaim.2.symm⟩
    have hall := Reservation.filledCount_eq_count_iff.mpr hcomplete
    exact hunfilled (hfilled.trans (hall.trans hclaim.2))

/-- A call ends as its producer's diary asks. -/
theorem stepProducer_answers {p : ProducerPoint α} (hp : ProducerFits l r id p)
    (hn : Noted l r id (d.call id) (d.reservation id) p) {o : Outcome α}
    (hended : (r.stepProducer id p).2 = .ended o) :
    ∃ call, d.call id = some call ∧ d.Answers id call o := by
  have hclaims : ∀ (c : Claim α), d.Answers id c.call o := fun c => by cases c <;> trivial
  cases p with
  | check c => exact ⟨c.call, hn.1, hclaims c⟩
  | setReserved count => exact ⟨_, hn.1, trivial⟩
  | checkOffset item offset =>
      obtain ⟨hcall, hkeeps⟩ := hn
      refine ⟨_, hcall, ?_⟩
      simp only [stepProducer] at hended
      split at hended
      · rename_i hle
        cases hended
        rw [hkeeps.2] at hle
        exact congrArg Outcome.filled (decide_eq_false (Nat.not_lt.mpr hle)).symm
      · cases hended
  | fill item position =>
      obtain ⟨offset, hcall, rfl, hkeeps⟩ := hn
      refine ⟨_, hcall, ?_⟩
      have hlt : offset < d.reservedCount id := by
        rw [Diary.reservedCount, ← hkeeps.2]
        exact Nat.lt_of_add_lt_add_left hp.2.2
      simp only [stepProducer] at hended
      split at hended <;> cases hended
      exact congrArg Outcome.filled (decide_eq_true hlt).symm
  | countFilled =>
      obtain ⟨item, offset, hcall, hlt, hkeeps⟩ := hn
      refine ⟨_, hcall, ?_⟩
      rw [hkeeps.2] at hlt
      cases hended
      refine congrArg Outcome.filled (decide_eq_true ?_).symm
      unfold Diary.reservedCount
      cases hopen : d.reservation id with
      | none => rwa [hopen] at hlt
      | some res => rwa [hopen] at hlt
  | readFilled reserved =>
      obtain ⟨hcall, hkeeps⟩ := hn
      obtain ⟨hbetween, hreserved⟩ := hp
      refine ⟨_, hcall, fun res hres => ?_⟩
      simp only [stepProducer] at hended
      split at hended
      · rename_i hunfilled
        cases hended
        rw [← hreserved] at hunfilled ⊢
        obtain ⟨hopen, hfilled, hcount⟩ :=
          (hres ▸ hkeeps.1 : Tallies l id (some res)).answers_unfilled
            hbetween hunfilled
        rw [if_neg hopen, hfilled, hcount]
      · cases hended
  | rest =>
      cases hended
      rcases hn with ⟨⟨item, hcall⟩, -⟩ | ⟨hcall, htallies⟩
      · exact ⟨_, hcall, trivial⟩
      · refine ⟨_, hcall, fun res hres => ?_⟩
        rw [if_pos ((hres ▸ htallies : Tallies l id (some res)).isComplete hp.1)]
  | compare c base =>
      simp only [stepProducer] at hended
      split at hended <;> cases hended
  | scan c base floor next =>
      simp only [stepProducer] at hended
      split at hended <;> cases hended
  | _ => cases hended

/-- A step of a producer is admitted by the diary. -/
theorem stepProducer_diary_admits {p : ProducerPoint α} (hp : ProducerFits l r id p)
    (hn : Noted l r id (d.call id) (d.reservation id) p) :
    d.Admits (r.producerMark id p, (r.stepProducer id p).2.word id) := by
  refine ⟨?_, ?_⟩
  · cases p with
    | claim c =>
        cases c with
        | push item => exact .inl ⟨item, hn.1, rfl⟩
        | reserve count => exact .inr hn.1
    | _ => trivial
  · cases hended : (r.stepProducer id p).2 with
    | next p' => trivial
    | ended o => exact stepProducer_answers hp hn hended

/-- An open reservation is a claim under way. -/
theorem Noted.claim {p : ProducerPoint α} {call : Option (ProducerCall α)}
    {open? : Option (Reservation α)} (hp : ProducerFits l r id p) (hn : Noted l r id call open? p)
    {res : Reservation α} (hres : open? = some res) : l.claim id = some (res.base, res.count) := by
  subst hres
  cases p with
  | check c => exact (hn.2.1 res rfl).1
  | readHead c | announce c bound | claim c => cases hn.2
  | publish c base =>
      obtain ⟨-, hopen⟩ := hn
      cases c with
      | push item => cases hopen
      | reserve count => cases hopen; exact hp.claim
  | compare c base | readTail c base | scan c base floor next | keep c base floor =>
      obtain ⟨-, hopen⟩ := hn
      cases c with
      | push item => cases hopen
      | reserve count => cases hopen; exact hp.1.claim
  | write item position => cases hn.2
  | clearFilled count | setReserved count =>
      cases hn.2
      exact hp.1.claim
  | checkOffset item offset | readBase item offset => exact (hn.2.1 res rfl).1
  | fill item position =>
      obtain ⟨offset, -, -, hkeeps⟩ := hn
      exact (hkeeps.1 res rfl).1
  | countFilled =>
      obtain ⟨item, offset, -, -, hkeeps⟩ := hn
      exact (hkeeps.1 _ rfl).1
  | readReserved | readFilled => exact (hn.2.1 res rfl).1
  | clearReserved | clearCount => exact (hn.2 res rfl).1
  | rest =>
      rcases hn with ⟨-, hnone⟩ | ⟨-, htallies⟩
      · cases hnone
      · exact (htallies res rfl).1

end Steps

end Lineage.RingBuffer

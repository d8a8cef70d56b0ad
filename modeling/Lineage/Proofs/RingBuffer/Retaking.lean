import Lineage.Proofs.RingBuffer.Exactness
import Lineage.Proofs.RingBuffer.Habit
import Lineage.Proofs.RingBuffer.Misuse
import Lineage.Proofs.RingBuffer.Simulation

/-!
# Roles that are left and taken again

Who leaves the role of a producer gives up the role and nothing else.  Whoever takes it next finds
it as it was left (`Machine.retaken_as_left`).  That is a fresh role exactly if nothing was
reserved.  A reservation that was left open stays: the new holder cannot push, and no consumer gets
an item from that reservation or from beyond it until the new holder releases it
(`Machine.Transcript.lt_of_holding`).
-/

namespace Lineage.RingBuffer

variable {α : Type}

/-! ## The state of a producer -/

theorem eq_producerRole {p q : ProducerRole} (hcursor : p.cursor = q.cursor)
    (hreserved : p.reserved = q.reserved) (hfilled : p.filled = q.filled)
    (hheld : p.held = q.held) :
    p = q := by
  cases p
  cases q
  cases hcursor
  cases hreserved
  cases hfilled
  cases hheld
  rfl

/-! ## Three habits -/

/-- A producer with nothing reserved counts no filled position. -/
def IsTidy (r : RingBuffer α) (id : Nat) : Prop :=
  (r.producer id).reserved = 0 → (r.producer id).filled = 0

/-- A producer is tidy, except that a release sets one counter after the other. -/
def tidy : Habit α where
  during _ r id p := p = .clearCount ∨ r.IsTidy id
  between _ r id := r.IsTidy id

/-- One producer makes no call, and its state is `p` but for who holds it. -/
def leftAs (id : Nat) (p : ProducerRole) : Habit α where
  during _ _ j _ := j ≠ id
  between _ r j :=
    j = id → (r.producer id).cursor = p.cursor ∧ (r.producer id).reserved = p.reserved ∧
    (r.producer id).filled = p.filled

/-- Whether an open reservation stays as it is at a point. -/
def ProducerPoint.KeepsReservation : ProducerPoint α → Prop
  | .check _ | .checkOffset .. | .readBase .. | .fill .. | .countFilled => True
  | _ => False

/-- The reservation of one producer. -/
def HasReserved (r : RingBuffer α) (id base count : Nat) : Prop :=
  (r.producer id).cursor = base ∧ (r.producer id).reserved = count

/-- One producer keeps a reservation open. -/
def holding (id base count : Nat) : Habit α where
  during _ r j p := j = id → r.HasReserved id base count ∧ p.KeepsReservation
  between _ r j := j = id → r.HasReserved id base count

section Habits

variable {l l' : Ledger α} {r r' : RingBuffer α} {id : Nat}

theorem IsTidy.of_eq (hreserved : (r'.producer id).reserved = (r.producer id).reserved)
    (hfilled : (r'.producer id).filled = (r.producer id).filled) (h : r.IsTidy id) :
    r'.IsTidy id := by
  unfold IsTidy
  rw [hreserved, hfilled]
  exact h

/-- A producer that is tidy after a step keeps the habit, wherever its call is then. -/
theorem tidy_after {progress : Progress (ProducerPoint α) α} (h : r.IsTidy id) :
    tidy.After l r id progress := by
  cases progress with
  | next q => exact .inr h
  | ended o => exact h

theorem stepProducer_tidy (hid : id < r.producers.size) {p : ProducerPoint α}
    (hp : ProducerFits l r id p) (h : tidy.during l r id p) :
    tidy.After l' (r.stepProducer id p).1 id (r.stepProducer id p).2 := by
  have hset := producer_setProducer_self r hid
  have hcursor : ∀ cursor, r.IsTidy id → (r.setProducerCursor id cursor).IsTidy id := by
    intro cursor htidy
    exact htidy.of_eq (by rw [setProducerCursor, hset]) (by rw [setProducerCursor, hset])
  cases p with
  | clearFilled count =>
      refine tidy_after fun _ => ?_
      simp only [stepProducer, hset]
  | setReserved count =>
      refine tidy_after fun hreserved => ?_
      simp only [stepProducer, hset] at hreserved
      exact absurd hreserved (Nat.ne_of_gt hp.1.pos)
  | countFilled =>
      refine tidy_after fun hreserved => ?_
      simp only [stepProducer, hset] at hreserved
      exact absurd hreserved (Nat.ne_of_gt hp.pos)
  | clearReserved => exact .inl rfl
  | clearCount =>
      refine tidy_after fun _ => ?_
      simp only [stepProducer, hset]
  | announce | publish | rest => exact tidy_after (hcursor _ (h.resolve_left (by simp)))
  | check c =>
      simp only [stepProducer]
      split <;> exact tidy_after (h.resolve_left (by simp))
  | compare c base =>
      simp only [stepProducer]
      split <;> exact tidy_after (h.resolve_left (by simp))
  | scan c base floor next =>
      simp only [stepProducer]
      split <;> exact tidy_after (h.resolve_left (by simp))
  | checkOffset item offset =>
      simp only [stepProducer]
      split <;> exact tidy_after (h.resolve_left (by simp))
  | readFilled reserved =>
      simp only [stepProducer]
      split <;> exact tidy_after (h.resolve_left (by simp))
  | readHead | claim | readTail | keep | write | readBase | fill | readReserved =>
      exact tidy_after (h.resolve_left (by simp))

theorem tidy_isKept : (tidy : Habit α).IsKept where
  step _ hid hp h := stepProducer_tidy hid hp h
  during_frame _ _ hsame h := h.imp_right (IsTidy.of_eq hsame.reserved hsame.filled)
  between_frame _ _ hsame h := IsTidy.of_eq hsame.reserved hsame.filled h

theorem leftAs_isKept (p : ProducerRole) : (leftAs id p : Habit α).IsKept where
  step {l r j q} hs hid hp h := by
    cases hnext : (r.stepProducer j q).2 with
    | next q' => exact h
    | ended o => exact fun heq => absurd heq h
  during_frame _ _ _ h := h
  between_frame {l r l' r' j} _ _ hsame h heq := by
    subst heq
    obtain ⟨hcursor, hreserved, hfilled⟩ := h rfl
    exact ⟨hsame.cursor.trans hcursor, hsame.reserved.trans hreserved,
      hsame.filled.trans hfilled⟩

theorem stepProducer_holding {base count : Nat} (hpos : 0 < count) (hid : id < r.producers.size)
    {p : ProducerPoint α} (h : r.HasReserved id base count) (hp : p.KeepsReservation) :
    (holding id base count).After l' (r.stepProducer id p).1 id (r.stepProducer id p).2 := by
  obtain ⟨hcursor, rfl⟩ := h
  cases p with
  | check c =>
      -- A producer with an open reservation does not get past the checks of a claim.
      obtain ⟨m, hm⟩ : ∃ m, r.checkClaim id c = .error m := by
        refine checkClaim_fails_iff.mpr ?_
        cases c with
        | push item => exact Nat.ne_of_gt hpos
        | reserve n => exact .inr (.inr (Nat.ne_of_gt hpos))
      simp only [stepProducer, hm]
      exact fun _ => ⟨hcursor, rfl⟩
  | checkOffset item offset =>
      simp only [stepProducer]
      split
      · exact fun _ => ⟨hcursor, rfl⟩
      · exact fun _ => ⟨⟨hcursor, rfl⟩, trivial⟩
  | readBase item offset => exact fun _ => ⟨⟨hcursor, rfl⟩, trivial⟩
  | fill item position =>
      simp only [stepProducer]
      split
      · exact fun _ => ⟨⟨hcursor, rfl⟩, trivial⟩
      · exact fun _ => ⟨hcursor, rfl⟩
  | countFilled =>
      intro _
      simp only [stepProducer, HasReserved, producer_setProducer_self r hid]
      exact ⟨hcursor, trivial⟩
  | _ => cases hp

theorem holding_isKept {base count : Nat} (hpos : 0 < count) :
    (holding id base count : Habit α).IsKept where
  step {l r j q} _ hid _ h := by
    by_cases heq : j = id
    · subst heq
      exact stepProducer_holding hpos hid (h rfl).1 (h rfl).2
    · cases hnext : (r.stepProducer j q).2 with
      | next q' => exact fun hj => absurd hj heq
      | ended o => exact fun hj => absurd hj heq
  during_frame {l r l' r' j q} _ _ hsame h heq := by
    subst heq
    exact ⟨⟨hsame.cursor.trans (h rfl).1.1, hsame.reserved.trans (h rfl).1.2⟩, (h rfl).2⟩
  between_frame {l r l' r' j} _ _ hsame h heq := by
    subst heq
    exact ⟨hsame.cursor.trans (h rfl).1, hsame.reserved.trans (h rfl).2⟩

end Habits

namespace Machine

variable {l : Ledger α} {d : Diary α} {r r' : RingBuffer α} {m m' : Machine α} {id : Nat}
  {entries : List (Mark α × Word α)}

/-! ## Between two holders -/

/-- A role that is left and of which nothing is asked stays as it was left. -/
theorem Transcript.leftAs {p : ProducerRole} (h : Transcript .turns m entries m') (hfits : Fits l m)
    (hm : m.Follows (leftAs id p) l)
    (hquiet : ∀ entry ∈ entries, ∀ call, entry.2 ≠ .asks id call) :
    ∃ l', Fits l' m' ∧ m'.Follows (RingBuffer.leftAs id p) l' := by
  induction h with
  | none => exact ⟨l, hfits, hm⟩
  | @snoc m m' entries mark word _ hstep hword ih =>
      rw [List.forall_mem_append] at hquiet
      obtain ⟨l', hfits', hm'⟩ := ih hquiet.1
      refine ⟨_, (hfits'.step hstep).2.1, hm'.step (leftAs_isKept p) hfits' hstep hword ?_⟩
      rintro j call rfl _ rfl
      exact hquiet.2 _ (List.mem_singleton_self _) call rfl

/-- The claim of a producer that keeps a reservation open is that reservation. -/
theorem claim_of_holding {base count : Nat} (hfits : Fits l m) (hpos : 0 < count)
    (hm : m.Follows (holding id base count) l) : l.claim id = some (base, count) := by
  have hfilling : ∀ {uncounted}, m.ring.HasReserved id base count →
      Filling l m.ring id uncounted →
      l.claim id = some (base, count) := by
    rintro uncounted ⟨rfl, rfl⟩ h
    exact h.claim
  have hbetween : m.ring.HasReserved id base count → Between l m.ring id →
      l.claim id = some (base, count) := by
    intro hreserved h
    exact hfilling hreserved (@Between.filling _ _ _ _ 0 h (hreserved.2 ▸ hpos))
  by_cases hfree : m.IsFree ⟨.producer, id⟩
  · exact hbetween (hm.rests hfree rfl) (hfits.rests hfree)
  · obtain ⟨caller, a, ha, hrole⟩ := exists_call_of_not_free hfree
    cases a with
    | consuming j p => cases hrole
    | producing j p =>
        cases hrole
        obtain ⟨hreserved, hp⟩ := hm.calls ha rfl
        have hknown := (hfits.calls ha).2
        cases p with
        | check | checkOffset => exact hbetween hreserved hknown
        | readBase | fill => exact hfilling hreserved hknown.1
        | countFilled => exact hfilling hreserved hknown
        | _ => cases hp

/-- What is returned is the item of a pop at its last step. -/
theorem Fits.exists_rest {j position : Nat} {item : Option α} (h : Fits l m)
    (hstep : Step .turns m (.returned j position item) m') :
    ∃ caller, m.calls caller = some (.consuming j (.rest position item)) := by
  rcases h.step_cases hstep with ⟨hmark, -⟩ | ⟨hmark, -⟩ | ⟨caller, a, ha, hmark, -⟩
  · cases hmark
  · cases hmark
  · cases a with
    | producing i p => cases p <;> cases hmark
    | consuming i p =>
        cases p with
        | rest k x =>
            cases hmark
            exact ⟨caller, ha⟩
        | _ => cases hmark

/-- Until a reservation is released, only items from before it are returned. -/
theorem Transcript.lt_of_holding {base count : Nat} (h : Transcript .turns m entries m')
    (hnotes : Notes l d m) (hpos : 0 < count) (hm : m.Follows (holding id base count) l)
    (hquiet : ∀ entry ∈ entries, entry.2 ≠ .asks id .release) :
    (∃ l' d', Notes l' d' m' ∧ m'.Follows (holding id base count) l') ∧
      ∀ j position item, .returned j position item ∈ entries.map Prod.fst →
        position < base := by
  induction h with
  | none => exact ⟨⟨l, d, hnotes, hm⟩, fun _ _ _ hmem => by cases hmem⟩
  | @snoc m m' entries mark word _ hstep hword ih =>
      rw [List.forall_mem_append] at hquiet
      obtain ⟨⟨l', d', hnotes', hm'⟩, hbefore⟩ := ih hquiet.1
      refine ⟨⟨_, _, (hnotes'.step hstep hword).2, ?_⟩, ?_⟩
      · refine hm'.step (holding_isKept hpos) hnotes'.fits hstep hword ?_
        rintro j call rfl hbetween rfl
        refine ⟨hbetween rfl, ?_⟩
        cases call with
        | release => exact absurd rfl (hquiet.2 _ (List.mem_singleton_self _))
        | _ => trivial
      · intro j position item hmem
        rw [List.map_append, List.mem_append] at hmem
        rcases hmem with hmem | hmem
        · exact hbefore j position item hmem
        · obtain rfl : mark = .returned j position item := (List.mem_singleton.mp hmem).symm
          obtain ⟨caller, ha⟩ := hnotes'.fits.exists_rest hstep
          exact hnotes'.below _ _ _ _ (hnotes'.fits.calls ha).2.2.1
            (claim_of_holding hnotes'.fits hpos hm')

/-! ## Roles taken again -/

theorem setProducer_setProducer (r : RingBuffer α) (id : Nat) (p q : ProducerRole) :
    (r.setProducer id p).setProducer id q = r.setProducer id q := by
  simp [setProducer]

/-- Who can take the role of a producer holds it, and nothing else has changed. -/
theorem takeProducer_ok (h : r.takeProducer id = .ok r') :
    id < r.producers.size ∧ r' = r.setProducer id { r.producer id with held := true } := by
  unfold takeProducer at h
  split at h
  · cases h
  · rename_i hid
    split at h
    · cases h
    · cases h
      exact ⟨Nat.lt_of_not_le hid, rfl⟩

/-- A role that is left can be taken at once, and is then as if it had not been left. -/
theorem takeProducer_leaveProducer (h : r.isHeld ⟨.producer, id⟩ = true) :
    (r.leaveProducer id).takeProducer id = .ok r := by
  have hid := lt_of_isHeld_producer h
  have hheld : { r.producer id with held := true } = r.producer id := by
    rw [show true = (r.producer id).held from h.symm]
  unfold takeProducer leaveProducer
  rw [producers_size_setProducer, if_neg (Nat.not_le_of_lt hid), producer_setProducer_self r hid]
  simp only [Bool.false_eq_true, if_false, setProducer_setProducer, hheld, setProducer_producer]

/-- A role between two calls without a reservation is as it was when it was first taken. -/
theorem producer_of_reserved_eq_zero {capacity producers consumers : Nat} {marks : List (Mark α)}
    (hnew : RingBuffer.new capacity producers consumers = .ok r)
    (hrun : Run .turns ⟨r, fun _ => none⟩ marks m) (hfree : m.IsFree ⟨.producer, id⟩)
    (hreserved : (m.ring.producer id).reserved = 0) :
    m.ring.producer id = { cursor := atRest, held := (m.ring.producer id).held } := by
  have hbegin : ∀ j, r.IsTidy j := by
    intro j _
    rw [(eq_empty_of_new hnew).1, producer_empty]
  have hcursor : m.ring.AtHome id := (run_shows hnew hrun).rests hfree
  have hfilled : m.ring.IsTidy id :=
    (run_follows tidy_isKept (fun h call => .inr h) hnew hbegin hrun).rests hfree
  exact eq_producerRole (hcursor hreserved) hreserved (hfilled hreserved) rfl

/-- Who leaves a role between two calls makes no call of it, and it stays as it is. -/
theorem follows_leftAs (hheld : m.ring.isHeld ⟨.producer, id⟩ = true)
    (hfree : m.IsFree ⟨.producer, id⟩) :
    ({ m with ring := m.ring.leaveProducer id } : Machine α).Follows
      (RingBuffer.leftAs id (m.ring.producer id)) l where
  calls {caller a} ha := by
    cases a with
    | consuming => trivial
    | producing j p =>
        rintro rfl
        exact hfree caller _ ha rfl
  rests {role} _ := by
    obtain ⟨side, j⟩ := role
    cases side with
    | consumer => trivial
    | producer =>
        rintro rfl
        rw [leaveProducer, producer_setProducer_self _ (lt_of_isHeld_producer hheld)]
        exact ⟨rfl, rfl, rfl⟩

/-- A role whose producer makes no call is free. -/
theorem Follows.isFree {p : ProducerRole} (h : m.Follows (RingBuffer.leftAs id p) l) :
    m.IsFree ⟨.producer, id⟩ := by
  intro caller a ha hrole
  cases a with
  | consuming => cases hrole
  | producing j q =>
      cases hrole
      exact h.calls ha rfl

/-- Whoever takes a role that was left, and of which nothing was asked since, finds it as it was
left. -/
theorem retaken_as_left (hfits : Fits l m) (hheld : m.ring.isHeld ⟨.producer, id⟩ = true)
    (hfree : m.IsFree ⟨.producer, id⟩)
    (hafter : Transcript .turns { m with ring := m.ring.leaveProducer id } entries m')
    (hquiet : ∀ entry ∈ entries, ∀ call, entry.2 ≠ .asks id call)
    (htake : m'.ring.takeProducer id = .ok r') :
    m'.IsFree ⟨.producer, id⟩ ∧ r'.producer id = m.ring.producer id := by
  have hleft := (hfits.step (.leaveProducer hheld hfree)).2.1
  obtain ⟨l', -, hm'⟩ := hafter.leftAs hleft (follows_leftAs hheld hfree) hquiet
  obtain ⟨hid, rfl⟩ := takeProducer_ok htake
  obtain ⟨hcursor, hreserved, hfilled⟩ := hm'.rests hm'.isFree rfl
  refine ⟨hm'.isFree, ?_⟩
  rw [producer_setProducer_self _ hid]
  exact eq_producerRole hcursor hreserved hfilled
    (show true = (m.ring.producer id).held from hheld.symm)

/-- Between two calls a producer that has reserved something keeps it. -/
theorem follows_holding {base count : Nat} (hfree : m.IsFree ⟨.producer, id⟩)
    (h : m.ring.HasReserved id base count) : m.Follows (holding id base count) l where
  calls {caller a} ha := by
    cases a with
    | consuming => trivial
    | producing j p =>
        rintro rfl
        exact absurd rfl (hfree caller _ ha)
  rests {role} _ := by
    obtain ⟨side, j⟩ := role
    cases side with
    | consumer => trivial
    | producer =>
        rintro rfl
        exact h

/-- Calls break the rules just the same in two ring buffers of one size with the same producer. -/
theorem breaks_congr {s : RingBuffer α} (hcapacity : r.capacity = s.capacity)
    (hproducer : r.producer id = s.producer id) (call : ProducerCall α) :
    r.Breaks id call ↔ s.Breaks id call := by
  cases call <;> simp only [Breaks, hcapacity, hproducer]

/-- Who leaves the role of a producer leaves it as it is.  Whoever takes it later, with nothing
asked of it in between, finds it so, and it can be taken again at once.

It is a fresh role, as the first to take it got, exactly if nothing was reserved when it was left.
Then the rules are those of a fresh role too, and no claim of the one who left it is under way.

If something was reserved, every push of the next holder fails, and until that one releases the
reservation, no consumer returns with an item from it or from beyond it. -/
theorem retaken_fresh_iff {capacity producers consumers : Nat} {r₁ : RingBuffer α}
    {before after : List (Mark α × Word α)}
    (hnew : RingBuffer.new capacity producers consumers = .ok r)
    (hfirst : r.takeProducer id = .ok r₁)
    (hbefore : Transcript .turns ⟨r, fun _ => Option.none⟩ before m)
    (hheld : m.ring.isHeld ⟨.producer, id⟩ = true) (hfree : m.IsFree ⟨.producer, id⟩)
    (hafter : Transcript .turns { m with ring := m.ring.leaveProducer id } after m')
    (hquiet : ∀ entry ∈ after, ∀ call, entry.2 ≠ .asks id call)
    (htake : m'.ring.takeProducer id = .ok r') :
    (m.ring.leaveProducer id).takeProducer id = .ok m.ring ∧
      r'.producer id = m.ring.producer id ∧
      (r'.producer id = r₁.producer id ↔ (m.ring.producer id).reserved = 0) ∧
      ((m.ring.producer id).reserved = 0 →
        (∀ call, r'.Breaks id call ↔ r₁.Breaks id call) ∧
        (ledger (before.map Prod.fst)).claim id = none) ∧
      (0 < (m.ring.producer id).reserved →
        (∀ item, r'.produce id (.push item) = some (r', .misuse (.pushWhileReserved id))) ∧
          ∀ later m'', Transcript .turns { m' with ring := r' } later m'' →
            (∀ entry ∈ later, entry.2 ≠ .asks id .release) →
              ∀ j position item, .returned j position item ∈ later.map Prod.fst →
                position < (m.ring.producer id).cursor) := by
  have hfits := (transcript_notes hnew hbefore).1.fits
  obtain ⟨hfree', hsame⟩ := retaken_as_left hfits hheld hfree hafter hquiet htake
  have hwhole : Transcript .turns ⟨r, fun _ => Option.none⟩ _ { m' with ring := r' } :=
    ((hbefore.snoc (.leaveProducer hheld hfree) (.nothing (by simp_all) (fun _ h => h))).append
      hafter).snoc
      (.takeProducer htake) (.nothing (by simp_all) (fun _ h => h))
  have hcapacity : r'.capacity = r₁.capacity := by
    have hr := (run_fits hnew hwhole.run).2.2
    obtain ⟨-, rfl⟩ := takeProducer_ok hfirst
    rw [(eq_empty_of_new hnew).1]
    exact hr
  have hfresh : r₁.producer id = { cursor := atRest, held := true } := by
    obtain ⟨hid, rfl⟩ := takeProducer_ok hfirst
    rw [producer_setProducer_self _ hid, (eq_empty_of_new hnew).1, producer_empty]
  have hzero : (m.ring.producer id).reserved = 0 → r'.producer id = r₁.producer id := by
    intro hreserved
    rw [hsame, hfresh, producer_of_reserved_eq_zero hnew hbefore.run hfree hreserved]
    exact congrArg _ hheld
  refine ⟨takeProducer_leaveProducer hheld, hsame, ⟨fun h => ?_, hzero⟩,
    fun hreserved => ?_, fun hpos => ?_⟩
  · rw [← hsame, h, hfresh]
  · exact ⟨fun call => breaks_congr hcapacity (hzero hreserved) call,
      (Between.idle (hfits.rests hfree) hreserved).1⟩
  · have hopen : (r'.producer id).reserved ≠ 0 := by
      rw [hsame]
      exact Nat.ne_of_gt hpos
    refine ⟨fun item => runProducer_misuse (by simp [checkClaim, hopen]) _,
      fun later m'' hlater hquiet' => ?_⟩
    exact (hlater.lt_of_holding (transcript_notes hnew hwhole).1 hpos
      (follows_holding hfree' ⟨congrArg _ hsame, congrArg _ hsame⟩) hquiet').2

/-- A ring buffer with two slots, one of which its only producer has reserved. -/
def oneReserved : RingBuffer Nat :=
  { empty 2 1 1 with producers := #[{ cursor := 0, reserved := 1, held := true }], head := 1 }

theorem run_oneReserved : ∃ marks, Run .turns ⟨empty 2 1 1, fun _ => Option.none⟩ marks
    ⟨oneReserved, fun _ => Option.none⟩ := by
  let held : RingBuffer Nat :=
    { empty 2 1 1 with producers := #[{ cursor := atRest, held := true }] }
  have hheld : Run .turns ⟨empty 2 1 1, fun _ => Option.none⟩ [.silent]
      ⟨held, fun _ => Option.none⟩ :=
    Run.none.snoc (@Step.takeProducer _ _ _ 0 _ rfl)
  exact ⟨_, @run_produce _ _ _ _ _ 0 0 (.reserve 1) oneReserved .done hheld
    ⟨rfl, by decide, fun _ _ _ h => by cases h⟩ (by decide)⟩

/-- A producer reserves a position and leaves its role, which is taken again.  The push of the new
holder fails. -/
theorem retaken_fresh_iff_reserved :
    ∃ (m : Machine Nat) (r' : RingBuffer Nat), Reachable .turns m ∧
      (m.ring.producer 0).reserved = 1 ∧
      (m.ring.leaveProducer 0).takeProducer 0 = .ok r' ∧
        r'.produce 0 (.push 7) = some (r', .misuse (.pushWhileReserved 0)) := by
  obtain ⟨marks, hrun⟩ := run_oneReserved
  obtain ⟨entries, -, hbefore⟩ := hrun.exists_transcript
  have h :=
    @retaken_fresh_iff _ _ oneReserved ⟨oneReserved, fun _ => Option.none⟩ _
      0 2 1 1 _ entries []
    rfl rfl hbefore rfl (fun _ _ ha => by cases ha) .none (fun _ ha => by cases ha) rfl
  exact ⟨_, oneReserved, ⟨2, 1, 1, _, _, rfl, hrun⟩, rfl, h.1, (h.2.2.2.2 (by decide)).1 7⟩

/-- A role that is taken again need not be fresh: its holder left it with an open reservation, and
the first push of the next one breaks the rules. -/
theorem retaken_not_fresh :
    ¬ ∀ (m : Machine Nat) (id : Nat) (r' : RingBuffer Nat), Reachable .turns m →
      m.ring.isHeld ⟨.producer, id⟩ = true → m.IsFree ⟨.producer, id⟩ →
        (m.ring.leaveProducer id).takeProducer id = .ok r' →
          ∀ item, ¬ r'.Breaks id (.push item) := by
  intro h
  obtain ⟨marks, hrun⟩ := run_oneReserved
  exact h ⟨oneReserved, fun _ => Option.none⟩ 0 oneReserved ⟨2, 1, 1, _, _, rfl, hrun⟩ rfl
    (fun _ _ ha => by cases ha) rfl 7 Nat.one_ne_zero

end Machine

end Lineage.RingBuffer

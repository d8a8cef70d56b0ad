import Lineage.Proofs.RingBuffer.Delivery
import Mathlib.Order.Nat

/-!
# Calls that wait

A producer waits for room and a consumer for an item.  Each computes its bound from the cursors of
the other side.  So the cursors must not only be low enough for delivery, which `Sound` says, but
high enough not to keep others waiting for nothing.  `Shows` says how high they are.  A role that is
between two calls and has nothing reserved shows no position, and a call that waits shows the first
position it has claimed.

When every call under way waits, and waits on when it computes its bound anew, it is for one of
three reasons.  The lowest consumer waits for a reservation to be released, or all items that were
pushed have been taken, or there is no room (`waits_not_circular`).
-/

namespace Lineage.RingBuffer

variable {α : Type}

/-! ## Wait loops -/

/-- What a producer has claimed that is in its wait loop: the claim and its first position. -/
def ProducerPoint.awaited : ProducerPoint α → Option (Claim α × Nat)
  | .compare c base | .readTail c base | .scan c base _ _ | .keep c base _ => some (c, base)
  | _ => none

/-- The position of a consumer that is in its wait loop. -/
def ConsumerPoint.awaited : ConsumerPoint α → Option Nat
  | .compare position | .readHead position | .scan position _ _ | .keep position _ => some position
  | _ => none

/-- The least of a counter and some cursors. -/
def floorOf (counter : Nat) (cursors : List Nat) : Nat := cursors.foldl min counter

/-- The bound that a producer computes from the cursors as they are. -/
def wantFloor (r : RingBuffer α) : Nat :=
  floorOf r.tail (r.consumers.toList.map ConsumerRole.cursor)

/-- The bound that a consumer computes from the cursors as they are. -/
def claimFloor (r : RingBuffer α) : Nat :=
  floorOf r.head (r.producers.toList.map ProducerRole.cursor)

/-- A call is in its wait loop, and the bound that it would compute from the cursors as they are
keeps it there. -/
def Blocked (r : RingBuffer α) : Activity α → Prop
  | .producing _ p =>
      ∃ c base, p.awaited = some (c, base) ∧ r.wantFloor + r.capacity ≤ base + c.size - 1
  | .consuming _ p => ∃ position, p.awaited = some position ∧ r.claimFloor ≤ position

theorem le_floorOf_iff {counter k : Nat} {cursors : List Nat} :
    k ≤ floorOf counter cursors ↔ k ≤ counter ∧ ∀ cursor ∈ cursors, k ≤ cursor := by
  unfold floorOf
  induction cursors generalizing counter with
  | nil => simp
  | cons cursor cursors ih =>
      rw [List.foldl_cons, ih, Nat.le_min, List.forall_mem_cons, and_assoc]

/-- A number is at most a bound that is computed from some roles, each known by its number. -/
theorem le_floorOf_cursors_iff {ρ : Type} {counter k : Nat} {roles : Array ρ}
    {cursor : ρ → Nat} (d : ρ) :
    k ≤ floorOf counter (roles.toList.map cursor) ↔
      k ≤ counter ∧ ∀ id, id < roles.size → k ≤ cursor (roles.getD id d) := by
  simp only [le_floorOf_iff, List.forall_mem_map, Array.mem_toList_iff, Array.mem_iff_getElem]
  refine and_congr_right fun _ => ⟨fun h id hid => ?_, ?_⟩
  · simpa [hid] using h _ ⟨id, hid, rfl⟩
  · rintro h role ⟨id, hid, rfl⟩
    simpa [hid] using h id hid

theorem le_claimFloor_iff {r : RingBuffer α} {k : Nat} :
    k ≤ r.claimFloor ↔
      k ≤ r.head ∧ ∀ id, id < r.producers.size → k ≤ (r.producer id).cursor :=
  le_floorOf_cursors_iff _

theorem le_wantFloor_iff {r : RingBuffer α} {k : Nat} :
    k ≤ r.wantFloor ↔
      k ≤ r.tail ∧ ∀ id, id < r.consumers.size → k ≤ (r.consumer id).cursor :=
  le_floorOf_cursors_iff _

/-- A bound at or below a position that `head` has passed comes from a cursor. -/
theorem exists_cursor_le {r : RingBuffer α} {k : Nat} (hfloor : r.claimFloor ≤ k)
    (hhead : k < r.head) :
    ∃ id, id < r.producers.size ∧ (r.producer id).cursor ≤ k := by
  by_contra hnone
  have hall : k + 1 ≤ r.claimFloor := by
    refine le_claimFloor_iff.mpr ⟨hhead,
      fun id hid => Nat.lt_of_not_le fun hle => hnone ⟨id, hid, hle⟩⟩
  omega

/-! ## One pass of a wait loop -/

theorem floorOf_drop_of_lt {cursors : List Nat} {next floor : Nat} (h : next < cursors.length) :
    floorOf floor (cursors.drop next) =
      floorOf (min floor cursors[next]) (cursors.drop (next + 1)) := by
  rw [List.drop_eq_getElem_cons h]
  rfl

theorem floorOf_drop_of_le {cursors : List Nat} {next floor : Nat} (h : cursors.length ≤ next) :
    floorOf floor (cursors.drop next) = floor := by
  rw [List.drop_eq_nil_of_le h]
  rfl

namespace Machine

variable {sharing : Sharing} {start m : Machine α} {marks : List (Mark α)} {caller id : Nat}

/-- A producer reads the cursors of the consumers that are left. -/
theorem run_scan_wants {c : Claim α} {base floor next : Nat}
    (hrun : Run sharing start marks
      (m.setCall caller (some (.producing id (.scan c base floor next))))) :
    ∃ marks', Run sharing start marks' (m.setCall caller (some (.producing id (.keep c base
      (floorOf floor ((m.ring.consumers.toList.map ConsumerRole.cursor).drop next)))))) := by
  induction hleft : m.ring.consumers.size - next generalizing floor next marks with
  | zero =>
      rw [floorOf_drop_of_le (by simpa using Nat.le_of_sub_eq_zero hleft)]
      refine ⟨_, hrun.advance (r := m.ring) ?_⟩
      simp [stepActivity, stepProducer, Nat.not_lt.mpr (Nat.le_of_sub_eq_zero hleft)]
  | succ left ih =>
      have hnext : next < m.ring.consumers.size := by omega
      rw [floorOf_drop_of_lt (by simpa using hnext)]
      have hstep : m.ring.stepActivity (.producing id (.scan c base floor next)) =
          (m.ring, some (.producing id
            (.scan c base (min floor (m.ring.consumer next).cursor) (next + 1)))) := by
        simp [stepActivity, stepProducer, hnext]
      have hread := ih (hrun.advance hstep) (by omega)
      simpa [consumer, hnext] using hread

/-- A consumer reads the cursors of the producers that are left. -/
theorem run_scan_claims {position floor next : Nat}
    (hrun : Run sharing start marks
      (m.setCall caller (some (.consuming id (.scan position floor next))))) :
    ∃ marks', Run sharing start marks' (m.setCall caller (some (.consuming id (.keep position
      (floorOf floor ((m.ring.producers.toList.map ProducerRole.cursor).drop next)))))) := by
  induction hleft : m.ring.producers.size - next generalizing floor next marks with
  | zero =>
      rw [floorOf_drop_of_le (by simpa using Nat.le_of_sub_eq_zero hleft)]
      refine ⟨_, hrun.advance (r := m.ring) ?_⟩
      simp [stepActivity, stepConsumer, Nat.not_lt.mpr (Nat.le_of_sub_eq_zero hleft)]
  | succ left ih =>
      have hnext : next < m.ring.producers.size := by omega
      rw [floorOf_drop_of_lt (by simpa using hnext)]
      have hstep : m.ring.stepActivity (.consuming id (.scan position floor next)) =
          (m.ring, some (.consuming id
            (.scan position (min floor (m.ring.producer next).cursor) (next + 1)))) := by
        simp [stepActivity, stepConsumer, hnext]
      have hread := ih (hrun.advance hstep) (by omega)
      simpa [producer, hnext] using hread

/-- A producer that makes a pass of its wait loop while the others stand still waits on if
`wantFloor` keeps it there, and goes on with its claim if not. -/
theorem run_pass_producer {c : Claim α} {base : Nat}
    (hrun : Run sharing start marks (m.setCall caller (some (.producing id (.readTail c base))))) :
    ∃ marks', Run sharing start marks'
      ({ m with ring := { m.ring with lastTail := m.ring.wantFloor } }.setCall caller
        (some (.producing id
        (if m.ring.wantFloor + m.ring.capacity ≤ base + c.size - 1 then .readTail c base
        else c.granted base)))) := by
  obtain ⟨marks', hread⟩ := run_scan_wants (hrun.advance rfl)
  have hkept : Run sharing start _
      ({ m with ring := { m.ring with lastTail := m.ring.wantFloor } }.setCall
      caller (some (.producing id (.compare c base)))) := hread.advance rfl
  refine ⟨_, hkept.advance ?_⟩
  by_cases hwait : m.ring.wantFloor + m.ring.capacity ≤ base + c.size - 1 <;>
    simp [stepActivity, stepProducer, hwait]

/-- A consumer that makes a pass of its wait loop while the others stand still waits on if
`claimFloor` keeps it there, and takes its item if not. -/
theorem run_pass_consumer {position : Nat}
    (hrun : Run sharing start marks
      (m.setCall caller (some (.consuming id (.readHead position))))) :
    ∃ marks', Run sharing start marks'
      ({ m with ring := { m.ring with firstHead := m.ring.claimFloor } }.setCall caller
        (some (.consuming id
        (if m.ring.claimFloor ≤ position then .readHead position else .take position)))) := by
  obtain ⟨marks', hread⟩ := run_scan_claims (hrun.advance rfl)
  have hkept : Run sharing start _
      ({ m with ring := { m.ring with firstHead := m.ring.claimFloor } }.setCall
      caller (some (.consuming id (.compare position)))) := hread.advance rfl
  refine ⟨_, hkept.advance ?_⟩
  by_cases hwait : m.ring.claimFloor ≤ position <;> simp [stepActivity, stepConsumer, hwait]

end Machine

/-! ## What cursors show -/

/-- A producer with nothing reserved shows that it works on no position. -/
def AtHome (r : RingBuffer α) (id : Nat) : Prop :=
  (r.producer id).reserved = 0 → (r.producer id).cursor = atRest

/-- What holds of a producer at a point of a call, beyond what the call knows: its cursor before it
claims and while it fills, and the size of its claim until there is room. -/
def ProducerShows (r : RingBuffer α) (id : Nat) : ProducerPoint α → Prop
  | .check _ | .readHead _ | .announce .. => r.AtHome id
  | .checkOffset .. | .readBase .. | .fill .. | .countFilled | .readReserved | .readFilled _ =>
      r.AtHome id
  | .publish c _ | .compare c _ | .readTail c _ | .scan c .. | .keep c .. => c.size ≤ r.capacity
  | _ => True

/-- What the cursor of a consumer shows at a point of a call. -/
def ConsumerShows (r : RingBuffer α) (id : Nat) : ConsumerPoint α → Prop
  | .readTail | .announce _ => (r.consumer id).cursor = atRest
  | .compare position | .readHead position | .scan position .. | .keep position _ =>
      (r.consumer id).cursor = position
  | _ => True

/-- What the cursor of a call's role shows. -/
def ActivityShows (r : RingBuffer α) : Activity α → Prop
  | .producing id p => r.ProducerShows id p
  | .consuming id p => r.ConsumerShows id p

/-- What the cursor of a role without a call shows. -/
def RoleShows (r : RingBuffer α) (role : Role) : Prop :=
  match role.side with
  | .producer => r.AtHome role.id
  | .consumer => (r.consumer role.id).cursor = atRest

/-- What the cursor of a role shows when this is left of its call. -/
def ShowsOn (r : RingBuffer α) (role : Role) : Option (Activity α) → Prop
  | some a => r.ActivityShows a
  | none => r.RoleShows role

section Shows

variable {l : Ledger α} {r r' : RingBuffer α} {id : Nat}

theorem stepActivity_shows_producer (hid : id < r.producers.size) {p : ProducerPoint α}
    (hp : ProducerFits l r id p) (h : r.ProducerShows id p) :
    (r.stepActivity (.producing id p)).1.ShowsOn ⟨.producer, id⟩
      (r.stepActivity (.producing id p)).2 := by
  cases p with
  | check c =>
      simp only [stepActivity, stepProducer]
      cases r.checkClaim id c <;> exact h
  | claim c => exact hp.2.2.1
  | compare c base =>
      simp only [stepActivity, stepProducer]
      by_cases hwait : r.lastTail + r.capacity ≤ base + c.size - 1
      · rw [if_pos hwait]
        exact h
      · rw [if_neg hwait]
        cases c <;> trivial
  | scan c base floor next =>
      simp only [stepActivity, stepProducer]
      by_cases hnext : next < r.consumers.size
      · rw [if_pos hnext]
        exact h
      · rw [if_neg hnext]
        exact h
  | setReserved count =>
      intro hreserved
      have hpos := hp.1.pos
      simp [stepActivity, stepProducer, producer_setProducer_self r hid] at hreserved
      omega
  | checkOffset item offset =>
      simp only [stepActivity, stepProducer]
      by_cases hoffset : (r.producer id).reserved ≤ offset
      · rw [if_pos hoffset]
        exact h
      · rw [if_neg hoffset]
        exact h
  | fill item position =>
      simp only [stepActivity, stepProducer]
      cases (r.slot position).isNone <;> exact h
  | countFilled =>
      simp only [ShowsOn, RoleShows, AtHome, stepActivity, stepProducer,
        producer_setProducer_self r hid]
      exact h
  | readFilled reserved =>
      simp only [stepActivity, stepProducer]
      by_cases hfilled : (r.producer id).filled ≠ reserved
      · rw [if_pos hfilled]
        exact h
      · rw [if_neg hfilled]
        trivial
  | rest =>
      intro _
      simp [stepActivity, stepProducer, setProducerCursor, producer_setProducer_self r hid]
  | readHead | publish | readTail | keep | readBase | readReserved => exact h
  | announce | write | clearFilled | clearReserved | clearCount => trivial

theorem stepActivity_shows_consumer (hid : id < r.consumers.size) {p : ConsumerPoint α}
    (h : r.ConsumerShows id p) :
    (r.stepActivity (.consuming id p)).1.ShowsOn ⟨.consumer, id⟩
      (r.stepActivity (.consuming id p)).2 := by
  have hcursor : ∀ cursor, ((r.setConsumerCursor id cursor).consumer id).cursor = cursor := by
    intro cursor
    rw [setConsumerCursor, consumer_setConsumer_self r hid]
  cases p with
  | publish position => exact hcursor position
  | compare position =>
      simp only [stepActivity, stepConsumer]
      by_cases hwait : r.firstHead ≤ position
      · rw [if_pos hwait]
        exact h
      · rw [if_neg hwait]
        trivial
  | scan position floor next =>
      simp only [stepActivity, stepConsumer]
      by_cases hnext : next < r.producers.size
      · rw [if_pos hnext]
        exact h
      · rw [if_neg hnext]
        exact h
  | rest position item => exact hcursor atRest
  | readTail | readHead | keep => exact h
  | announce | claim | take => trivial

/-- A step keeps what the cursor of its role shows. -/
theorem stepActivity_shows {a : Activity α} (ha : ActivityFits l r a) (h : r.ActivityShows a) :
    (r.stepActivity a).1.ShowsOn a.role (r.stepActivity a).2 := by
  cases a with
  | producing id p => exact stepActivity_shows_producer ha.1 ha.2 h
  | consuming id p => exact stepActivity_shows_consumer ha.1 h

/-! ### The steps of others -/

theorem SameProducer.atHome {l' : Ledger α} (s : SameProducer id l r l' r') (h : r.AtHome id) :
    r'.AtHome id := by
  unfold AtHome
  rw [s.reserved, s.cursor]
  exact h

theorem ProducerShows.frame {l' : Ledger α} (hcapacity : r'.capacity = r.capacity)
    (s : SameProducer id l r l' r') {p : ProducerPoint α} (h : r.ProducerShows id p) :
    r'.ProducerShows id p := by
  cases p with
  | publish c | compare c | readTail c | scan c | keep c =>
      unfold ProducerShows
      rw [hcapacity]
      exact h
  | claim | write | clearFilled | setReserved | clearReserved | clearCount | rest => trivial
  | _ => exact s.atHome h

theorem ConsumerShows.frame {l' : Ledger α} (s : SameConsumer id l r l' r') {p : ConsumerPoint α}
    (h : r.ConsumerShows id p) : r'.ConsumerShows id p := by
  unfold ConsumerShows at *
  rw [s.cursor]
  exact h

theorem RoleShows.frame {l' : Ledger α} {role other : Role} (hadvance : Advance role l r l' r')
    (hne : other ≠ role) (h : r.RoleShows other) : r'.RoleShows other := by
  obtain ⟨side, j⟩ := other
  cases side with
  | producer => exact (hadvance.producer (Role.producer_apart hne)).atHome h
  | consumer => exact (hadvance.consumer (Role.consumer_apart hne)).cursor.trans h

theorem ActivityShows.frame {l' : Ledger α} {role : Role} (hadvance : Advance role l r l' r')
    {a : Activity α} (hne : a.role ≠ role) (h : r.ActivityShows a) : r'.ActivityShows a := by
  cases a with
  | producing j p =>
      exact ProducerShows.frame hadvance.grows.capacity
        (hadvance.producer (Role.producer_apart hne)) h
  | consuming j p => exact ConsumerShows.frame (hadvance.consumer (Role.consumer_apart hne)) h

end Shows

namespace Machine

/-- The cursor of every role shows what it should. -/
def Shows (m : Machine α) : Prop := m.Each m.ring.ActivityShows m.ring.RoleShows

variable {l : Ledger α} {m m' : Machine α}

theorem shows_new {capacity producers consumers : Nat} {r : RingBuffer α}
    (h : RingBuffer.new capacity producers consumers = .ok r) : Shows ⟨r, fun _ => none⟩ where
  calls {caller a} ha := by cases ha
  rests {role} _ := by
    unfold RingBuffer.new at h
    split at h
    · cases h
    · split at h
      · cases h
      · split at h <;> cases h
        obtain ⟨side, id⟩ := role
        cases side with
        | producer =>
            intro _
            by_cases hid : id < producers <;> simp [producer, empty, hid]
        | consumer =>
            by_cases hid : id < consumers <;> simp [RoleShows, consumer, empty, hid]

theorem Shows.setRing {r' : RingBuffer α} (h : Shows m) (hu : Unnoticed l m.ring r') :
    Shows { m with ring := r' } where
  calls {caller a} ha := by
    have hshows := h.calls ha
    cases a with
    | producing id p => exact ProducerShows.frame hu.grows.capacity (hu.producer id) hshows
    | consuming id p => exact ConsumerShows.frame (hu.consumer id) hshows
  rests {role} hfree := by
    have hshows := h.rests hfree
    obtain ⟨side, id⟩ := role
    cases side with
    | producer => exact (hu.producer id).atHome hshows
    | consumer => exact (hu.consumer id).cursor.trans hshows

/-- A call begins with the cursor of a role without a call. -/
theorem activityShows_of_begins {r : RingBuffer α} {a : Activity α} (ha : Begins a)
    (h : r.RoleShows a.role) : r.ActivityShows a := by
  cases a with
  | producing id p =>
      obtain ⟨call, rfl⟩ := ha
      cases call <;> exact h
  | consuming id p =>
      cases ha
      exact h

/-- A step keeps what the cursors show. -/
theorem Shows.step {mark : Mark α} (h : Shows m) (hfits : Fits l m)
    (hstep : Step .turns m mark m') :
    Shows m' := by
  rcases hfits.step_cases hstep with
    ⟨-, r', hu, rfl⟩ | ⟨-, caller, a, hcaller, hfree, hbegins, -, rfl⟩ |
    ⟨caller, a, ha, -, rfl⟩
  · exact h.setRing hu
  · exact Each.start h hcaller (activityShows_of_begins hbegins (h.rests hfree))
  · have hadvance := stepActivity_advance hfits.sound (hfits.calls ha)
    have hshows := stepActivity_shows (hfits.calls ha) (h.calls ha)
    refine Each.advance h (hfits.role_ne ha) ha (fun b hb => ?_) (fun hnone => ?_)
      (fun hne => ActivityShows.frame hadvance hne) fun hne => RoleShows.frame hadvance hne
    · rw [hb] at hshows
      exact hshows
    · rw [hnone] at hshows
      exact hshows

/-- Cursors show what they should along every run from a new ring buffer. -/
theorem run_shows {capacity producers consumers : Nat} {r : RingBuffer α} {marks : List (Mark α)}
    (hnew : RingBuffer.new capacity producers consumers = .ok r)
    (hrun : Run .turns ⟨r, fun _ => none⟩ marks m) : Shows m := by
  induction hrun with
  | none => exact shows_new hnew
  | snoc hbefore hstep ih => exact ih.step (run_fits hnew hbefore).1 hstep

/-! ## What waits for what -/

/-- A consumer waits for the item of a position. -/
def AwaitsItem (m : Machine α) (position : Nat) : Prop :=
  ∃ caller id p, m.calls caller = some (.consuming id p) ∧ p.awaited = some position

/-- A producer waits for room for what it has claimed, from a first to a last position. -/
def AwaitsRoom (m : Machine α) (base last : Nat) : Prop :=
  ∃ caller id p c, m.calls caller = some (.producing id p) ∧ p.awaited = some (c, base) ∧
    last = base + c.size - 1

/-- A producer has an open reservation of a position. -/
def Reserves (m : Machine α) (id position : Nat) : Prop :=
  id < m.ring.producers.size ∧ (m.ring.producer id).cursor ≤ position ∧
    position < (m.ring.producer id).cursor + (m.ring.producer id).reserved

/-- Calls are under way, and every one of them waits on. -/
structure Stalled (m : Machine α) : Prop where
  busy : ∃ caller a, m.calls caller = some a
  blocked : ∀ {caller a}, m.calls caller = some a → m.ring.Blocked a

section Stalled

/-- A consumer in its wait loop is after its position and shows it. -/
theorem awaited_consumer {r : RingBuffer α} {id position : Nat} {p : ConsumerPoint α}
    (hp : ConsumerFits l r id p) (hshows : r.ConsumerShows id p) (h : p.awaited = some position) :
    l.want id = some position ∧ (r.consumer id).cursor = position := by
  cases p with
  | compare => cases h; exact ⟨hp.1, hshows⟩
  | readHead => cases h; exact ⟨hp.1, hshows⟩
  | scan => cases h; exact ⟨hp.1.1, hshows⟩
  | keep => cases h; exact ⟨hp.1.1, hshows⟩
  | _ => cases h

/-- A producer in its wait loop has claimed its positions, no more than there are slots, and shows
the first of them. -/
theorem awaited_producer {r : RingBuffer α} {id base : Nat} {c : Claim α} {p : ProducerPoint α}
    (hp : ProducerFits l r id p) (hshows : r.ProducerShows id p) (h : p.awaited = some (c, base)) :
    l.claim id = some (base, c.size) ∧ (r.producer id).cursor = base ∧ 0 < c.size ∧
      c.size ≤ r.capacity := by
  cases p with
  | compare => cases h; exact ⟨hp.1.claim, hp.2, hp.1.pos, hshows⟩
  | readTail => cases h; exact ⟨hp.1.claim, hp.2, hp.1.pos, hshows⟩
  | scan => cases h; exact ⟨hp.1.claim, hp.2.1, hp.1.pos, hshows⟩
  | keep => cases h; exact ⟨hp.1.claim, hp.2.1, hp.1.pos, hshows⟩
  | _ => cases h

theorem exists_call_of_not_free {role : Role} (h : ¬ m.IsFree role) :
    ∃ caller a, m.calls caller = some a ∧ a.role = role := by
  by_contra hnone
  exact h fun caller a ha hrole => hnone ⟨caller, a, ha, hrole⟩

variable (hfits : Fits l m) (hshows : Shows m) (hstalled : Stalled m)

include hfits hshows hstalled

/-- A consumer rests, or waits for the item of the position in its cursor. -/
theorem consumer_cases (id : Nat) :
    (l.want id = none ∧ (m.ring.consumer id).cursor = atRest) ∨
      l.want id = some (m.ring.consumer id).cursor ∧
        m.AwaitsItem (m.ring.consumer id).cursor := by
  by_cases hfree : m.IsFree ⟨.consumer, id⟩
  · exact .inl ⟨hfits.rests hfree, hshows.rests hfree⟩
  · obtain ⟨caller, a, ha, hrole⟩ := exists_call_of_not_free hfree
    cases a with
    | producing j p => cases hrole
    | consuming j p =>
        cases hrole
        obtain ⟨position, hawaited, -⟩ := hstalled.blocked ha
        obtain ⟨hwant, hcursor⟩ :=
          awaited_consumer (hfits.calls ha).2 (hshows.calls ha) hawaited
        rw [hcursor]
        exact .inr ⟨hwant, caller, id, p, ha, hawaited⟩

/-- A producer rests, has an open reservation, or waits for room. -/
theorem producer_cases (id : Nat) :
    (m.ring.producer id).cursor = atRest ∨
      (0 < (m.ring.producer id).reserved ∧
        l.claim id = some ((m.ring.producer id).cursor, (m.ring.producer id).reserved)) ∨
      ∃ last, m.AwaitsRoom (m.ring.producer id).cursor last := by
  by_cases hfree : m.IsFree ⟨.producer, id⟩
  · have hbetween : Between l m.ring id := hfits.rests hfree
    rcases hbetween with hidle | hfilling
    · exact .inl (hshows.rests hfree hidle.2)
    · exact .inr (.inl ⟨hfilling.pos, hfilling.claim⟩)
  · obtain ⟨caller, a, ha, hrole⟩ := exists_call_of_not_free hfree
    cases a with
    | consuming j p => cases hrole
    | producing j p =>
        cases hrole
        obtain ⟨c, base, hawaited, -⟩ := hstalled.blocked ha
        have hcursor := (awaited_producer (hfits.calls ha).2 (hshows.calls ha) hawaited).2.1
        rw [hcursor]
        exact .inr (.inr ⟨_, caller, id, p, c, ha, hawaited, rfl⟩)

/-- What waits for room has claimed it, no more than there are slots, and does not get it. -/
theorem AwaitsRoom.bounds {base last : Nat} (h : m.AwaitsRoom base last) :
    base ≤ last ∧ last < base + m.ring.capacity ∧ last < m.ring.head ∧
      m.ring.wantFloor + m.ring.capacity ≤ last := by
  obtain ⟨caller, id, p, c, ha, hawaited, rfl⟩ := h
  obtain ⟨hclaim, -, hpos, hsize⟩ :=
    awaited_producer (hfits.calls ha).2 (hshows.calls ha) hawaited
  have hhead := hfits.sound.claim_le_head hclaim
  obtain ⟨c', base', hawaited', hfull⟩ := hstalled.blocked ha
  rw [hawaited] at hawaited'
  cases hawaited'
  exact ⟨by omega, by omega, by omega, hfull⟩

/-- A position whose item a consumer waits for has been claimed, and is not below the bound of the
producers. -/
theorem AwaitsItem.bounds {k : Nat} (h : m.AwaitsItem k) :
    k < m.ring.tail ∧ m.ring.claimFloor ≤ k := by
  obtain ⟨caller, id, p, ha, hawaited⟩ := h
  obtain ⟨hwant, -⟩ := awaited_consumer (hfits.calls ha).2 (hshows.calls ha) hawaited
  obtain ⟨k', hawaited', hempty⟩ := hstalled.blocked ha
  rw [hawaited] at hawaited'
  cases hawaited'
  exact ⟨hfits.sound.taker_iff.mp ⟨id, hfits.sound.want_taker hwant⟩, hempty⟩

/-- The items of all positions below the lowest that a consumer waits for have been taken. -/
theorem taken_of_lt_awaited {k j : Nat} (hleast : ∀ i, m.AwaitsItem i → k ≤ i)
    (hk : k ≤ m.ring.tail) (hj : j < k) : l.taken j = true := by
  rcases hfits.sound.taken_or_wanted (Nat.lt_of_lt_of_le hj hk) with htaken | ⟨id, hwant⟩
  · exact htaken
  · rcases consumer_cases hfits hshows hstalled id with ⟨hnone, -⟩ | ⟨hsome, hawaits⟩
    · rw [hwant] at hnone
      cases hnone
    · rw [hwant] at hsome
      cases hsome
      exact absurd (hleast _ hawaits) (Nat.not_le_of_lt hj)

/-- The bound of the consumers is `tail` or the lowest position that one waits for. -/
theorem le_wantFloor {k : Nat} (hleast : ∀ i, m.AwaitsItem i → k ≤ i) (hk : k ≤ m.ring.tail)
    (htail : m.ring.tail < UInt64.size) : k ≤ m.ring.wantFloor := by
  refine le_wantFloor_iff.mpr ⟨hk, fun id _ => ?_⟩
  rcases consumer_cases hfits hshows hstalled id with ⟨-, hcursor⟩ | ⟨-, hawaits⟩
  · rw [hcursor, atRest]
    omega
  · exact hleast _ hawaits

/-- The lowest consumer that waits for an item waits for a reservation, or nobody has pushed the
item and nobody waits for room. -/
theorem stalled_on_item {k : Nat} (hk : IsLeast {k | m.AwaitsItem k} k)
    (htail : m.ring.tail < UInt64.size) :
    (∃ id, m.Reserves id k) ∨ (¬ ∃ base last, m.AwaitsRoom base last) ∧
      m.ring.head ≤ k := by
  have hleast : ∀ i, m.AwaitsItem i → k ≤ i := fun i hi => hk.2 hi
  obtain ⟨hlt, hfloor⟩ := AwaitsItem.bounds hfits hshows hstalled hk.1
  have hwants := le_wantFloor hfits hshows hstalled hleast (Nat.le_of_lt hlt) htail
  rcases Nat.lt_or_ge k m.ring.head with hbelow | habove
  · -- A producer's cursor holds the bound back, at or below the position.
    obtain ⟨id, hid, hcursor⟩ := exists_cursor_le hfloor hbelow
    rcases producer_cases hfits hshows hstalled id with
      hrests | ⟨hpos, hclaim⟩ | ⟨last, hroom⟩
    · rw [hrests, atRest] at hcursor
      omega
    · -- The claim begins at the position itself, since all earlier items have been taken.
      refine .inl ⟨id, hid, hcursor, Nat.lt_of_not_le fun hbeyond => ?_⟩
      have htaken := taken_of_lt_awaited hfits hshows hstalled hleast (Nat.le_of_lt hlt)
        (j := (m.ring.producer id).cursor) (by omega)
      rw [hfits.sound.taken_eq_false hclaim (Nat.le_refl _) (by omega)] at htaken
      cases htaken
    · -- A producer that shows so low a position has room within the lap.
      obtain ⟨-, hlast, -, hfull⟩ := hroom.bounds hfits hshows hstalled
      omega
  · refine .inr ⟨?_, habove⟩
    rintro ⟨base, last, hroom⟩
    obtain ⟨-, -, hlast, hfull⟩ := hroom.bounds hfits hshows hstalled
    omega

/-- When no consumer waits for an item, some producer waits for room, and there is none for the
lowest. -/
theorem stalled_on_room (hnone : ¬ ∃ k, m.AwaitsItem k) (htail : m.ring.tail < UInt64.size) :
    ∃ base last, m.AwaitsRoom base last ∧ (∀ b e, m.AwaitsRoom b e → base ≤ b) ∧
      m.ring.tail + m.ring.capacity ≤ last := by
  classical
  have hsome : ∃ base last, m.AwaitsRoom base last := by
    obtain ⟨caller, a, ha⟩ := hstalled.busy
    cases a with
    | consuming id p =>
        obtain ⟨position, hawaited, -⟩ := hstalled.blocked ha
        exact absurd ⟨position, caller, id, p, ha, hawaited⟩ hnone
    | producing id p =>
        obtain ⟨c, base, hawaited, -⟩ := hstalled.blocked ha
        exact ⟨base, _, caller, id, p, c, ha, hawaited, rfl⟩
  obtain ⟨last, hroom⟩ := Nat.find_spec hsome
  refine ⟨Nat.find hsome, last, hroom, fun b e hb => Nat.find_min' hsome ⟨e, hb⟩, ?_⟩
  have hwants := le_wantFloor hfits hshows hstalled (fun i hi => absurd ⟨i, hi⟩ hnone)
    (Nat.le_refl m.ring.tail) htail
  obtain ⟨-, -, -, hfull⟩ := hroom.bounds hfits hshows hstalled
  omega

end Stalled

/-- Producers and consumers never wait for each other in a ring buffer.  When calls are under way
and all of them wait on, either an open reservation holds the position of the lowest consumer that
waits, or no producer waits and nothing has been pushed for that consumer, or no consumer waits and
there is no room for what the lowest producer that waits has claimed.

`tail` counts in 64 bits.  So the cursor of a role at rest is not below any position that a consumer
has claimed. -/
theorem waits_not_circular (h : Reachable .turns m) (htail : m.ring.tail < UInt64.size)
    (hstalled : Stalled m) :
    (∃ k id, IsLeast {k | m.AwaitsItem k} k ∧ m.Reserves id k) ∨
      ((¬ ∃ base last, m.AwaitsRoom base last) ∧
        ∃ k, IsLeast {k | m.AwaitsItem k} k ∧ m.ring.head ≤ k) ∨
      (¬ ∃ k, m.AwaitsItem k) ∧ ∃ base last, m.AwaitsRoom base last ∧
        (∀ b e, m.AwaitsRoom b e → base ≤ b) ∧ m.ring.tail + m.ring.capacity ≤ last := by
  classical
  obtain ⟨capacity, producers, consumers, r, marks, hnew, hrun⟩ := h
  have hfits := (run_fits hnew hrun).1
  have hshows := run_shows hnew hrun
  by_cases hsome : ∃ k, m.AwaitsItem k
  · have hk := Nat.isLeast_find hsome
    rcases stalled_on_item hfits hshows hstalled hk htail with
      ⟨id, hreserves⟩ | ⟨hnone, habove⟩
    · exact .inl ⟨_, id, hk, hreserves⟩
    · exact .inr (.inl ⟨hnone, _, hk, habove⟩)
  · exact .inr (.inr ⟨hsome, stalled_on_room hfits hshows hstalled hsome htail⟩)

/-- In a ring buffer with one slot, a producer has reserved it, another one waits for the next lap,
and a consumer waits for the reservation. -/
theorem waits_not_circular_reserved :
    ∃ m : Machine Nat, Reachable .turns m ∧ m.ring.tail < UInt64.size ∧ Stalled m ∧
      m.AwaitsRoom 1 1 ∧
      ∃ k id, IsLeast {k | m.AwaitsItem k} k ∧ m.Reserves id k := by
  let roles : RingBuffer Nat :=
    { empty 1 2 1 with
      producers := #[{ cursor := atRest, held := true }, { cursor := atRest, held := true }]
      consumers := #[{ cursor := atRest, held := true }] }
  have hroles : Run .turns ⟨empty 1 2 1, fun _ => none⟩ [.silent, .silent, .silent]
      ⟨roles, fun _ => none⟩ :=
    ((Run.none.snoc (@Step.takeProducer _ _ _ 0 _ rfl)).snoc
      (@Step.takeProducer _ _ _ 1 _ rfl)).snoc
      (@Step.takeConsumer _ _ _ 0 _ rfl)
  let reserved : RingBuffer Nat :=
    { roles with
      producers :=
        #[{ cursor := 0, reserved := 1, held := true }, { cursor := atRest, held := true }]
      head := 1 }
  have hreserved := @run_produce _ _ _ _ _ 0 0 (.reserve 1) reserved .done hroles
    ⟨rfl, by decide, fun _ _ _ h => by cases h⟩ (by decide)
  have hpushing := hreserved.snoc (@Step.produce _ _ _ 1 1 (.push 7)
    ⟨rfl, by decide, fun _ _ _ h => by cases h⟩)
  have hfull := ((((hpushing.advance rfl).advance rfl).advance rfl).advance rfl).advance rfl
  have hpopping := hfull.snoc (@Step.consume _ _ _ 2 0 ⟨rfl, by decide, fun _ caller a h => by
    by_cases hcaller : caller = 1
    · subst hcaller
      cases h
      decide
    · rw [calls_setCall_ne hcaller] at h
      cases h⟩)
  let waiting : Machine Nat :=
    (Machine.setCall ⟨{ roles with
      producers := #[{ cursor := 0, reserved := 1, held := true }, { cursor := 1, held := true }]
      consumers := #[{ cursor := 0, held := true }]
      head := 2
      tail := 1 }, fun _ => none⟩ 1 (some (.producing 1 (.compare (.push 7) 1)))).setCall 2
        (some (.consuming 0 (.compare 0)))
  have hrun : Run .turns ⟨empty 1 2 1, fun _ => none⟩ _ waiting :=
    (((hpopping.advance rfl).advance rfl).advance rfl).advance rfl
  have hstalled : Stalled waiting := by
    refine ⟨⟨2, _, rfl⟩, fun {caller a} ha => ?_⟩
    by_cases hconsumer : caller = 2
    · subst hconsumer
      cases ha
      exact ⟨0, rfl, by decide⟩
    · rw [calls_setCall_ne hconsumer] at ha
      by_cases hproducer : caller = 1
      · subst hproducer
        cases ha
        exact ⟨.push 7, 1, rfl, by decide⟩
      · rw [calls_setCall_ne hproducer] at ha
        cases ha
  have hreachable : Reachable .turns waiting := ⟨1, 2, 1, _, _, rfl, hrun⟩
  have hroom : waiting.AwaitsRoom 1 1 := ⟨1, 1, _, .push 7, rfl, rfl, rfl⟩
  have hitem : waiting.AwaitsItem 0 := ⟨2, 0, _, rfl, rfl⟩
  refine ⟨waiting, hreachable, by decide, hstalled, hroom, ?_⟩
  rcases waits_not_circular hreachable (by decide) hstalled with h | ⟨hnone, -⟩ | ⟨hnone, -⟩
  · exact h
  · exact absurd ⟨1, 1, hroom⟩ hnone
  · exact absurd ⟨0, hitem⟩ hnone

end Machine

end Lineage.RingBuffer

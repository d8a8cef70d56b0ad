import Lineage.Proofs.RingBuffer.Steps

/-!
# Delivery

Callers that take turns with the roles of a ring buffer get from it what the ledger's discipline
promises, whatever the order of their steps.  The invariant of the machine is `Machine.Fits`: the
ring buffer is sound, the point of every call under way fits, no two calls are of one role, and a
role without a call is between two calls.  `Machine.Fits.step` keeps it, and `Machine.run_fits`
carries it along a run, together with the marks.

The counters of the model have no upper bound.  `reach` is the greatest number that a call's next
step computes, and it stays below `UInt64.size` as long as the positions leave one lap.
-/

namespace Lineage.RingBuffer

variable {α : Type}

/-! ## Calls of either side -/

/-- What a call knows. -/
def ActivityFits (l : Ledger α) (r : RingBuffer α) : Activity α → Prop
  | .producing id p => id < r.producers.size ∧ ProducerFits l r id p
  | .consuming id p => id < r.consumers.size ∧ ConsumerFits l r id p

/-- A role is between two calls. -/
def Rests (l : Ledger α) (r : RingBuffer α) (role : Role) : Prop :=
  match role.side with
  | .producer => Between l r role.id
  | .consumer => l.want role.id = none

/-- What is left of a call fits, and a call that ends leaves its role at rest. -/
def GoesOn (l : Ledger α) (r : RingBuffer α) (role : Role) : Option (Activity α) → Prop
  | some a => a.role = role ∧ ActivityFits l r a
  | none => Rests l r role

section Calls

variable {l l' : Ledger α} {r r' : RingBuffer α}

/-- A call stays one of its role. -/
theorem role_stepActivity {a b : Activity α} (h : (r.stepActivity a).2 = some b) :
    b.role = a.role := by
  cases a <;> simp only [stepActivity] at h <;> split at h <;> cases h <;> rfl

theorem stepActivity_admits (hs : Sound l r) {a : Activity α} (ha : ActivityFits l r a) :
    l.Admits r.capacity (r.mark a) := by
  cases a with
  | producing id p => exact stepProducer_admits hs ha.2
  | consuming id p => exact stepConsumer_admits hs ha.2

theorem stepActivity_advance (hs : Sound l r) {a : Activity α} (ha : ActivityFits l r a) :
    Advance a.role l r (l.add (r.mark a)) (r.stepActivity a).1 := by
  cases a with
  | producing id p =>
      have h := stepProducer_advance hs ha.1 ha.2
      simp only [stepActivity]
      split <;> rename_i heq <;> rw [heq] at h <;> exact h
  | consuming id p =>
      have h := stepConsumer_advance hs ha.1 ha.2
      simp only [stepActivity]
      split <;> rename_i heq <;> rw [heq] at h <;> exact h

theorem stepActivity_fits (hs : Sound l r) {a : Activity α} (ha : ActivityFits l r a) :
    GoesOn (l.add (r.mark a)) (r.stepActivity a).1 a.role (r.stepActivity a).2 := by
  have hg := (stepActivity_advance hs ha).grows
  cases a with
  | producing id p =>
      have h := stepProducer_fits hs ha.1 ha.2
      have hid : id < (r.stepActivity (.producing id p)).1.producers.size := by
        rw [hg.producers]
        exact ha.1
      simp only [stepActivity] at hid ⊢
      split at hid <;> rename_i heq <;> rw [heq] at h
      · exact ⟨rfl, hid, h⟩
      · exact h
  | consuming id p =>
      have h := stepConsumer_fits hs ha.1 ha.2
      have hid : id < (r.stepActivity (.consuming id p)).1.consumers.size := by
        rw [hg.consumers]
        exact ha.1
      simp only [stepActivity] at hid ⊢
      split at hid <;> rename_i heq <;> rw [heq] at h
      · exact ⟨rfl, hid, h⟩
      · exact h

theorem Role.producer_apart {role : Role} {id : Nat} (h : ⟨.producer, id⟩ ≠ role) :
    id ≠ role.id ∨ role.side = .consumer := by
  obtain ⟨side, j⟩ := role
  cases side with
  | producer => exact .inl fun heq => h (congrArg (Role.mk .producer) heq)
  | consumer => exact .inr rfl

theorem Role.consumer_apart {role : Role} {id : Nat} (h : ⟨.consumer, id⟩ ≠ role) :
    id ≠ role.id ∨ role.side = .producer := by
  obtain ⟨side, j⟩ := role
  cases side with
  | producer => exact .inr rfl
  | consumer => exact .inl fun heq => h (congrArg (Role.mk .consumer) heq)

/-- A step of a role does not change what the calls of other roles know. -/
theorem Advance.activityFits (hs : Sound l r) {role : Role} (h : Advance role l r l' r')
    {a : Activity α} (hne : a.role ≠ role) (ha : ActivityFits l r a) : ActivityFits l' r' a := by
  cases a with
  | producing id p =>
      have hsame := h.producer (Role.producer_apart hne)
      exact ⟨h.grows.producers ▸ ha.1, ha.2.frame hs h.grows hsame⟩
  | consuming id p =>
      have hsame := h.consumer (Role.consumer_apart hne)
      exact ⟨h.grows.consumers ▸ ha.1, ha.2.frame hs h.grows hsame⟩

theorem Advance.rests (hs : Sound l r) {role other : Role} (h : Advance role l r l' r')
    (hne : other ≠ role) (ho : Rests l r other) : Rests l' r' other := by
  obtain ⟨side, i⟩ := other
  cases side with
  | producer => exact (h.producer (Role.producer_apart hne)).between hs h.grows ho
  | consumer => exact (h.consumer (Role.consumer_apart hne)).want.trans ho

end Calls

/-! ## The invariant of the machine -/

namespace Machine

/-- The ring buffer is sound, every call fits, and a role has one call at most. -/
structure Fits (l : Ledger α) (m : Machine α) : Prop where
  sound : Sound l m.ring
  calls : ∀ {caller a}, m.calls caller = some a → ActivityFits l m.ring a
  apart : ∀ {c d a b}, m.calls c = some a → m.calls d = some b → a.role = b.role → c = d
  rests : ∀ {role}, m.IsFree role → Rests l m.ring role

variable {l : Ledger α} {m : Machine α}

@[simp] theorem ring_setCall (caller : Nat) (a : Option (Activity α)) :
    (m.setCall caller a).ring = m.ring := rfl

theorem calls_setCall_self (caller : Nat) (a : Option (Activity α)) :
    (m.setCall caller a).calls caller = a := if_pos rfl

theorem calls_setCall_ne {caller d : Nat} (h : d ≠ caller) (a : Option (Activity α)) :
    (m.setCall caller a).calls d = m.calls d := if_neg h

/-- Every call under way has one property, and every role without a call has another one. -/
structure Each (P : Activity α → Prop) (Q : Role → Prop) (m : Machine α) : Prop where
  calls : ∀ {caller a}, m.calls caller = some a → P a
  rests : ∀ {role}, m.IsFree role → Q role

theorem calls_advance_self (m : Machine α) (caller : Nat) (a : Activity α) :
    (m.advance caller a).calls caller = (m.ring.stepActivity a).2 := if_pos rfl

theorem calls_advance_ne (m : Machine α) {caller k : Nat} (h : k ≠ caller) (a : Activity α) :
    (m.advance caller a).calls k = m.calls k := if_neg h

section Each

variable {P P' : Activity α → Prop} {Q Q' : Role → Prop} {caller : Nat} {a : Activity α}

/-- A caller starts a call. -/
theorem Each.start (h : m.Each P Q) (hcaller : m.calls caller = none) (ha : P a) :
    (m.setCall caller (some a)).Each P Q where
  calls {c b} hb := by
    by_cases hc : c = caller
    · subst hc
      rw [calls_setCall_self] at hb
      cases hb
      exact ha
    · rw [calls_setCall_ne hc] at hb
      exact h.calls hb
  rests {role} hrole := by
    refine h.rests fun c b hb => hrole c b ?_
    have hc : c ≠ caller := by
      rintro rfl
      rw [hcaller] at hb
      cases hb
    rw [calls_setCall_ne hc]
    exact hb

/-- A call goes one step on, and calls and roles of others are left alone. -/
theorem Each.advance (h : m.Each P Q)
    (hapart : ∀ {c b}, c ≠ caller → m.calls c = some b → b.role ≠ a.role)
    (ha : m.calls caller = some a) (hnext : ∀ b, (m.ring.stepActivity a).2 = some b → P' b)
    (hended : (m.ring.stepActivity a).2 = none → Q' a.role)
    (hP : ∀ {b}, b.role ≠ a.role → P b → P' b)
    (hQ : ∀ {role}, role ≠ a.role → Q role → Q' role) :
    (m.advance caller a).Each P' Q' where
  calls {c b} hb := by
    -- The caller's own call has gone on, and the others are of other roles.
    by_cases hc : c = caller
    · subst hc
      exact hnext b ((m.calls_advance_self c a).symm.trans hb)
    · rw [calls_advance_ne m hc] at hb
      exact hP (hapart hc hb) (h.calls hb)
  rests {role} hfree := by
    -- A role that rests afterwards rested before, or its call has just ended.
    by_cases heq : role = a.role
    · subst heq
      cases hnone : (m.ring.stepActivity a).2 with
      | none => exact hended hnone
      | some b =>
          exact absurd (role_stepActivity hnone)
            (hfree caller b ((m.calls_advance_self caller a).trans hnone))
    · refine hQ heq (h.rests fun c b hb => ?_)
      by_cases hc : c = caller
      · subst hc
        rw [ha] at hb
        cases hb
        exact Ne.symm heq
      · exact hfree c b ((calls_setCall_ne hc _).trans hb)

end Each

/-- A new ring buffer without callers. -/
theorem fits_new {capacity producers consumers : Nat} {r : RingBuffer α}
    (h : RingBuffer.new capacity producers consumers = .ok r) : Fits {} ⟨r, fun _ => none⟩ := by
  unfold RingBuffer.new at h
  split at h
  · cases h
  · rename_i hcapacity
    split at h
    · cases h
    · split at h
      · cases h
      · cases h
        have hpos : 0 < capacity := by
          refine Nat.pos_of_ne_zero fun h0 => ?_
          subst h0
          exact hcapacity (by decide)
        have hreserved : ∀ id, ((empty capacity producers consumers :
            RingBuffer α).producer id).reserved = 0 := by
          intro id
          by_cases hid : id < producers <;> simp [producer, empty, hid]
        constructor
        · constructor <;> simp [empty, hpos, slot]
          intro k _
          simp [Nat.mod_lt _ hpos]
        · intro caller a ha
          cases ha
        · intro c d a b ha
          cases ha
        · intro role _
          obtain ⟨side, id⟩ := role
          cases side with
          | producer => exact .inl ⟨rfl, hreserved id⟩
          | consumer => rfl

/-- A change of the ring buffer that no call and no role at rest notices. -/
structure Unnoticed (l : Ledger α) (r r' : RingBuffer α) : Prop where
  sound : Sound l r'
  grows : Grows l r l r'
  producer : ∀ id, SameProducer id l r l r'
  consumer : ∀ id, SameConsumer id l r l r'

/-- Someone takes or leaves the role of a producer. -/
theorem unnoticed_holdProducer {r : RingBuffer α} (hs : Sound l r) {id : Nat}
    (hid : id < r.producers.size) (held : Bool) :
    Unnoticed l r (r.setProducer id { r.producer id with held := held }) := by
  have hadvance : Advance ⟨.producer, id⟩ l r l
      (r.setProducer id { r.producer id with held := held }) :=
    hs.advance_setProducer hid fun _ _ hc => hs.cursor_le_claim hc
  refine ⟨hadvance.sound, hadvance.grows, fun j => ?_, fun j => hadvance.consumer (.inr rfl)⟩
  by_cases hj : j = id
  · subst hj
    refine ⟨?_, ?_, ?_, rfl, fun _ => rfl⟩ <;> rw [producer_setProducer_self _ hid]
  · exact hadvance.producer (.inl hj)

/-- Someone takes or leaves the role of a consumer. -/
theorem unnoticed_holdConsumer {r : RingBuffer α} (hs : Sound l r) {id : Nat}
    (hid : id < r.consumers.size) (held : Bool) :
    Unnoticed l r (r.setConsumer id { r.consumer id with held := held }) := by
  have hadvance : Advance ⟨.consumer, id⟩ l r l
      (r.setConsumer id { r.consumer id with held := held }) :=
    hs.advance_setConsumer hid fun _ hw => hs.cursor_le_want hw
  refine ⟨hadvance.sound, hadvance.grows, fun j => hadvance.producer (.inr rfl), fun j => ?_⟩
  by_cases hj : j = id
  · subst hj
    refine ⟨?_, rfl, fun _ => rfl⟩
    rw [consumer_setConsumer_self _ hid]
  · exact hadvance.consumer (.inl hj)

theorem Fits.setRing {r' : RingBuffer α} (h : Fits l m) (hu : Unnoticed l m.ring r') :
    Fits l { m with ring := r' } where
  sound := hu.sound
  calls {caller a} ha := by
    have hfits := h.calls ha
    cases a with
    | producing id p =>
        exact ⟨hu.grows.producers ▸ hfits.1, hfits.2.frame h.sound hu.grows (hu.producer id)⟩
    | consuming id p =>
        exact ⟨hu.grows.consumers ▸ hfits.1, hfits.2.frame h.sound hu.grows (hu.consumer id)⟩
  apart := h.apart
  rests {role} hfree := by
    have hrests := h.rests hfree
    obtain ⟨side, id⟩ := role
    cases side with
    | producer => exact (hu.producer id).between h.sound hu.grows hrests
    | consumer => exact (hu.consumer id).want.trans hrests

theorem lt_of_isHeld_producer {r : RingBuffer α} {id : Nat}
    (h : r.isHeld ⟨.producer, id⟩ = true) :
    id < r.producers.size := by
  refine Nat.lt_of_not_le fun hle => ?_
  have hnone : r.producers[id]? = none := Array.getElem?_eq_none hle
  simp [isHeld, producer, Array.getD_eq_getD_getElem?, hnone] at h

theorem lt_of_isHeld_consumer {r : RingBuffer α} {id : Nat}
    (h : r.isHeld ⟨.consumer, id⟩ = true) :
    id < r.consumers.size := by
  refine Nat.lt_of_not_le fun hle => ?_
  have hnone : r.consumers[id]? = none := Array.getElem?_eq_none hle
  simp [isHeld, consumer, Array.getD_eq_getD_getElem?, hnone] at h

/-- Each call fits, and each role without a call is at rest. -/
theorem Fits.each (h : Fits l m) : m.Each (ActivityFits l m.ring) (Rests l m.ring) :=
  ⟨h.calls, h.rests⟩

/-- The calls of other callers are of other roles. -/
theorem Fits.role_ne (h : Fits l m) {caller c : Nat} {a b : Activity α}
    (ha : m.calls caller = some a) (hne : c ≠ caller) (hb : m.calls c = some b) :
    b.role ≠ a.role :=
  fun heq => hne (h.apart hb ha heq)

/-- A caller starts a call of a role that is at rest. -/
theorem Fits.start (h : Fits l m) {caller : Nat} {a : Activity α} (hcaller : m.calls caller = none)
    (hfree : m.IsFree a.role) (ha : ActivityFits l m.ring a) :
    Fits l (m.setCall caller (some a)) where
  sound := h.sound
  calls := (h.each.start hcaller ha).calls
  apart {c d x y} hx hy hrole := by
    by_cases hc : c = caller <;> by_cases hd : d = caller
    · exact hc.trans hd.symm
    · subst hc
      rw [calls_setCall_self] at hx
      rw [calls_setCall_ne hd] at hy
      cases hx
      exact absurd hrole.symm (hfree d y hy)
    · subst hd
      rw [calls_setCall_self] at hy
      rw [calls_setCall_ne hc] at hx
      cases hy
      exact absurd hrole (hfree c x hx)
    · rw [calls_setCall_ne hc] at hx
      rw [calls_setCall_ne hd] at hy
      exact h.apart hx hy hrole
  rests := (h.each.start hcaller ha).rests

/-- A call goes one step on. -/
theorem Fits.advance (h : Fits l m) {caller : Nat} {a : Activity α}
    (ha : m.calls caller = some a) :
    Fits (l.add (m.ring.mark a))
      { m.setCall caller (m.ring.stepActivity a).2 with ring := (m.ring.stepActivity a).1 } := by
  have hadvance := stepActivity_advance h.sound (h.calls ha)
  have hfits := stepActivity_fits h.sound (h.calls ha)
  have hnext : ∀ b, (m.ring.stepActivity a).2 = some b →
      ActivityFits (l.add (m.ring.mark a)) (m.ring.stepActivity a).1 b := by
    intro b hb
    rw [hb] at hfits
    exact hfits.2
  have hended : (m.ring.stepActivity a).2 = none →
      Rests (l.add (m.ring.mark a)) (m.ring.stepActivity a).1 a.role := by
    intro hnone
    rw [hnone] at hfits
    exact hfits
  have heach := h.each.advance (h.role_ne ha) ha hnext hended
    (fun hne => hadvance.activityFits h.sound hne) (fun hne => hadvance.rests h.sound hne)
  refine ⟨hadvance.sound, heach.calls, ?_, heach.rests⟩
  intro c d x y hx hy heq
  by_cases hc : c = caller <;> by_cases hd : d = caller
  · exact hc.trans hd.symm
  · subst hc
    rw [calls_setCall_self] at hx
    rw [calls_setCall_ne hd] at hy
    exact absurd (heq.symm.trans (role_stepActivity hx)) (h.role_ne ha hd hy)
  · subst hd
    rw [calls_setCall_self] at hy
    rw [calls_setCall_ne hc] at hx
    exact absurd (heq.trans (role_stepActivity hy)) (h.role_ne ha hc hx)
  · rw [calls_setCall_ne hc] at hx
    rw [calls_setCall_ne hd] at hy
    exact h.apart hx hy heq

/-- Whether a call has not taken a step yet. -/
def Begins : Activity α → Prop
  | .producing _ p => ∃ call : ProducerCall α, p = call.start
  | .consuming _ p => p = .readTail

/-- A step changes what no call notices, starts a call of a role that is free, or takes a call one
step on. -/
theorem Fits.step_cases {m' : Machine α} {mark : Mark α} (h : Fits l m)
    (hstep : Step .turns m mark m') :
    (mark = .silent ∧ ∃ r', Unnoticed l m.ring r' ∧ m' = { m with ring := r' }) ∨
      (mark = .silent ∧ ∃ caller a, m.calls caller = none ∧ m.IsFree a.role ∧ Begins a ∧
        ActivityFits l m.ring a ∧ m' = m.setCall caller (some a)) ∨
      ∃ caller a, m.calls caller = some a ∧ mark = m.ring.mark a ∧
        m' = { m.setCall caller (m.ring.stepActivity a).2 with
          ring := (m.ring.stepActivity a).1 } := by
  cases hstep with
  | takeProducer hr =>
      unfold RingBuffer.takeProducer at hr
      split at hr
      · cases hr
      · rename_i hid
        split at hr
        · cases hr
        · cases hr
          exact .inl ⟨rfl, _, unnoticed_holdProducer h.sound (Nat.lt_of_not_le hid) true, rfl⟩
  | takeConsumer hr =>
      unfold RingBuffer.takeConsumer at hr
      split at hr
      · cases hr
      · rename_i hid
        split at hr
        · cases hr
        · cases hr
          exact .inl ⟨rfl, _, unnoticed_holdConsumer h.sound (Nat.lt_of_not_le hid) true, rfl⟩
  | leaveProducer hheld _ =>
      exact .inl ⟨rfl, _, unnoticed_holdProducer h.sound
        (lt_of_isHeld_producer hheld) false, rfl⟩
  | leaveConsumer hheld _ =>
      exact .inl ⟨rfl, _, unnoticed_holdConsumer h.sound
        (lt_of_isHeld_consumer hheld) false, rfl⟩
  | @produce caller id call hstart =>
      obtain ⟨hcaller, hheld, hfree⟩ := hstart
      have hbetween : Between l m.ring id := h.rests (hfree rfl)
      have hfits : ActivityFits l m.ring (.producing id call.start) := by
        refine ⟨lt_of_isHeld_producer hheld, ?_⟩
        cases call <;> exact hbetween
      exact .inr (.inl ⟨rfl, caller, .producing id call.start, hcaller, hfree rfl,
        ⟨call, rfl⟩, hfits, rfl⟩)
  | @consume caller id hstart =>
      obtain ⟨hcaller, hheld, hfree⟩ := hstart
      have hwant : l.want id = none := h.rests (hfree rfl)
      exact .inr (.inl ⟨rfl, caller, .consuming id .readTail, hcaller, hfree rfl, rfl,
        ⟨lt_of_isHeld_consumer hheld, hwant⟩, rfl⟩)
  | @advance caller a ha => exact .inr (.inr ⟨caller, a, ha, rfl, rfl⟩)

/-- A step keeps the invariant, and its mark is admitted. -/
theorem Fits.step {m' : Machine α} {mark : Mark α} (h : Fits l m)
    (hstep : Step .turns m mark m') :
    l.Admits m.ring.capacity mark ∧ Fits (l.add mark) m' ∧
      m'.ring.capacity = m.ring.capacity := by
  rcases h.step_cases hstep with
    ⟨rfl, r', hu, rfl⟩ | ⟨rfl, caller, a, hcaller, hfree, -, ha, rfl⟩ |
    ⟨caller, a, ha, rfl, rfl⟩
  · exact ⟨trivial, h.setRing hu, hu.grows.capacity⟩
  · exact ⟨trivial, h.start hcaller hfree ha, rfl⟩
  · exact ⟨stepActivity_admits h.sound (h.calls ha), h.advance ha,
      (stepActivity_advance h.sound (h.calls ha)).grows.capacity⟩

/-- The invariant holds along every run from a new ring buffer, and all marks are admitted. -/
theorem run_fits {capacity producers consumers : Nat} {r : RingBuffer α} {marks : List (Mark α)}
    (hnew : RingBuffer.new capacity producers consumers = .ok r)
    (hrun : Run .turns ⟨r, fun _ => none⟩ marks m) :
    Fits (ledger marks) m ∧ Lawful capacity marks ∧ m.ring.capacity = capacity := by
  induction hrun with
  | none =>
      refine ⟨fits_new hnew, lawful_nil capacity, ?_⟩
      unfold RingBuffer.new at hnew
      split at hnew
      · cases hnew
      · split at hnew
        · cases hnew
        · split at hnew <;> cases hnew
          rfl
  | snoc _ hstep ih =>
      obtain ⟨hfits, hlawful, hcapacity⟩ := ih
      obtain ⟨hadmits, hfits', hsame⟩ := hfits.step hstep
      rw [ledger_snoc]
      exact ⟨hfits', hlawful.snoc (hcapacity ▸ hadmits), hsame.trans hcapacity⟩

/-! ## Calls alone -/

theorem setCall_setCall (m : Machine α) (caller : Nat) (a b : Option (Activity α)) :
    (m.setCall caller a).setCall caller b = m.setCall caller b := by
  unfold setCall
  congr 1
  funext c
  by_cases h : c = caller <;> simp [h]

theorem setCall_none {caller : Nat} (h : m.calls caller = none) : m.setCall caller none = m := by
  unfold setCall
  congr 1
  funext c
  by_cases hc : c = caller <;> simp [hc, h]

end Machine

/-- The marks of a producer's call alone. -/
def producerMarks (id : Nat) : Nat → RingBuffer α → ProducerPoint α → List (Mark α)
  | 0, _, _ => []
  | fuel + 1, r, p =>
      r.producerMark id p ::
        match r.stepProducer id p with
        | (r, .next p) => producerMarks id fuel r p
        | (_, .ended _) => []

/-- The marks of a consumer's call alone. -/
def consumerMarks (id : Nat) : Nat → RingBuffer α → ConsumerPoint α → List (Mark α)
  | 0, _, _ => []
  | fuel + 1, r, p =>
      r.consumerMark id p ::
        match r.stepConsumer id p with
        | (r, .next p) => consumerMarks id fuel r p
        | (_, .ended _) => []

namespace Machine

variable {sharing : Sharing} {start : Machine α} {marks : List (Mark α)}

/-- A call goes one step on after a run. -/
theorem Run.advance {m : Machine α} {caller : Nat} {a : Activity α} {next : Option (Activity α)}
    {r : RingBuffer α} (hrun : Run sharing start marks (m.setCall caller (some a)))
    (hstep : m.ring.stepActivity a = (r, next)) :
    Run sharing start (marks ++ [m.ring.mark a]) ({ m with ring := r }.setCall caller next) := by
  have h := hrun.snoc (.advance (calls_setCall_self caller _))
  rw [ring_setCall, hstep, setCall_setCall] at h
  exact h

/-- The steps of a producer's call alone are steps of the machine. -/
theorem run_producer {id caller fuel : Nat} {m : Machine α} {p : ProducerPoint α}
    {r : RingBuffer α} {o : Outcome α}
    (hrun : Run sharing start marks (m.setCall caller (some (.producing id p))))
    (hcall : runProducer id fuel m.ring p = some (r, o)) :
    Run sharing start (marks ++ producerMarks id fuel m.ring p)
      { m.setCall caller none with ring := r } := by
  induction fuel generalizing m p marks with
  | zero => cases hcall
  | succ fuel ih =>
      simp only [runProducer] at hcall
      simp only [producerMarks]
      cases hnext : m.ring.stepProducer id p with
      | mk r' progress =>
          rw [hnext] at hcall
          cases progress with
          | next p' =>
              have hact : m.ring.stepActivity (.producing id p) =
                  (r', some (.producing id p')) := by
                simp only [stepActivity, hnext]
              have hrest := ih (hrun.advance hact) hcall
              rw [List.append_assoc] at hrest
              exact hrest
          | ended o' =>
              have hact : m.ring.stepActivity (.producing id p) = (r', none) := by
                simp only [stepActivity, hnext]
              cases hcall
              exact hrun.advance hact

/-- The steps of a consumer's call alone are steps of the machine. -/
theorem run_consumer {id caller fuel : Nat} {m : Machine α} {p : ConsumerPoint α}
    {r : RingBuffer α} {o : Outcome α}
    (hrun : Run sharing start marks (m.setCall caller (some (.consuming id p))))
    (hcall : runConsumer id fuel m.ring p = some (r, o)) :
    Run sharing start (marks ++ consumerMarks id fuel m.ring p)
      { m.setCall caller none with ring := r } := by
  induction fuel generalizing m p marks with
  | zero => cases hcall
  | succ fuel ih =>
      simp only [runConsumer] at hcall
      simp only [consumerMarks]
      cases hnext : m.ring.stepConsumer id p with
      | mk r' progress =>
          rw [hnext] at hcall
          cases progress with
          | next p' =>
              have hact : m.ring.stepActivity (.consuming id p) =
                  (r', some (.consuming id p')) := by
                simp only [stepActivity, hnext]
              have hrest := ih (hrun.advance hact) hcall
              rw [List.append_assoc] at hrest
              exact hrest
          | ended o' =>
              have hact : m.ring.stepActivity (.consuming id p) = (r', none) := by
                simp only [stepActivity, hnext]
              cases hcall
              exact hrun.advance hact

/-- A call of a producer that ends alone is a run of the machine. -/
theorem run_produce {id caller : Nat} {c : ProducerCall α} {r : RingBuffer α} {o : Outcome α}
    (hrun : Run sharing start marks m) (hstart : MayStart sharing m caller ⟨.producer, id⟩)
    (hcall : m.ring.produce id c = some (r, o)) :
    Run sharing start (marks ++ .silent :: producerMarks id m.ring.onePass m.ring c.start)
      { m with ring := r } := by
  have h := run_producer (hrun.snoc (.produce c hstart)) hcall
  rw [setCall_none hstart.1, List.append_assoc] at h
  exact h

/-- A call of a consumer that ends alone is a run of the machine. -/
theorem run_consume {id caller : Nat} {r : RingBuffer α} {o : Outcome α}
    (hrun : Run sharing start marks m) (hstart : MayStart sharing m caller ⟨.consumer, id⟩)
    (hcall : m.ring.consume id = some (r, o)) :
    Run sharing start (marks ++ .silent :: consumerMarks id m.ring.onePass m.ring .readTail)
      { m with ring := r } := by
  have h := run_consumer (hrun.snoc (.consume hstart)) hcall
  rw [setCall_none hstart.1, List.append_assoc] at h
  exact h

/-! ## Delivery -/

end Machine

/-- The greatest number that a call's next step computes. -/
def reach (r : RingBuffer α) : Activity α → Nat
  | .producing _ (.claim c) => r.head + c.size
  | .producing _ (.compare c base) => max (r.lastTail + r.capacity) (base + c.size)
  | .producing id (.readBase _ offset) => (r.producer id).cursor + offset
  | .producing id .countFilled => (r.producer id).filled + 1
  | .consuming _ .claim => r.tail + 1
  | _ => 0

theorem reach_lt {l : Ledger α} {r : RingBuffer α} (hs : Sound l r) {a : Activity α}
    (ha : ActivityFits l r a) {bound : Nat} (hhead : r.head + r.capacity < bound)
    (htail : r.tail + r.capacity < bound) : r.reach a < bound := by
  have hpos := hs.capacity_pos
  cases a with
  | producing id p =>
      obtain ⟨_, hp⟩ := ha
      cases p with
      | claim c =>
          have hsize := hp.2.2.1
          simp only [reach]
          omega
      | compare c base =>
          have hclaim := hs.claim_le_head hp.1.claim
          have hkept := hs.lastTail_le_tail
          simp only [reach]
          omega
      | readBase item offset =>
          have hclaim := hs.claim_le_head hp.1.claim
          have hoffset := hp.2
          simp only [reach]
          omega
      | countFilled =>
          have hclaim := hs.claim_le_head hp.claim
          have hfilled := hp.filled
          have hcount := storedCount_le (l := l) (r.producer id).cursor (r.producer id).reserved
          simp only [reach]
          omega
      | _ => exact Nat.zero_lt_of_lt hhead
  | consuming id p =>
      cases p with
      | claim =>
          simp only [reach]
          omega
      | _ => exact Nat.zero_lt_of_lt hhead

namespace Machine

/-- Whatever the order of the steps, a pop returns the item that the producer of its position stored
last for it, no position is returned twice, no slot is found empty, and no producer writes a slot
with an unread item.  The positions stay so far below `UInt64.size` that no step computes a number
above it. -/
theorem run_delivers {capacity producers consumers : Nat} {r : RingBuffer α}
    {marks : List (Mark α)} {m : Machine α}
    (hnew : RingBuffer.new capacity producers consumers = .ok r)
    (hrun : Run .turns ⟨r, fun _ => none⟩ marks m)
    (hhead : m.ring.head < UInt64.size - capacity) (htail : m.ring.tail < UInt64.size - capacity) :
    Lawful capacity marks ∧ (returnedPositions marks).Nodup ∧
      (∀ caller id p o, m.calls caller = some (.consuming id p) →
        (m.ring.stepConsumer id p).2 = .ended o →
          ∃ position a, p = .rest position (some a) ∧ (ledger marks).Holds position (some a) ∧
            o = .item a) ∧
      ∀ caller a, m.calls caller = some a → m.ring.reach a < UInt64.size := by
  obtain ⟨hfits, hlawful, hcapacity⟩ := run_fits hnew hrun
  refine ⟨hlawful, hlawful.nodup_returnedPositions, ?_, ?_⟩
  · intro caller id p o hcall hended
    obtain ⟨_, hp⟩ := hfits.calls hcall
    cases p with
    | rest position item =>
        obtain ⟨j, a, rfl, howner, hstored⟩ := hp.2.2
        cases hended
        exact ⟨position, a, rfl, ⟨j, a, rfl, howner, hstored⟩, rfl⟩
    | compare position =>
        simp only [stepConsumer] at hended
        split at hended <;> cases hended
    | scan position floor next =>
        simp only [stepConsumer] at hended
        split at hended <;> cases hended
    | _ => cases hended
  · intro caller a hcall
    exact reach_lt hfits.sound (hfits.calls hcall) (by omega) (by omega)

/-- One item is handed over and taken, and the producer sets out to claim the next position. -/
theorem run_delivers_one :
    ∃ (marks : List (Mark Nat)) (m : Machine Nat),
      Run .turns ⟨empty 2 1 1, fun _ => none⟩ marks m ∧ .returned 0 0 (some 7) ∈ marks ∧
        m.calls 0 = some (.producing 0 (.check (.push 8))) ∧ Lawful 2 marks ∧
          (returnedPositions marks).Nodup := by
  have hfree : ∀ (r : RingBuffer Nat) role, IsFree ⟨r, fun _ => none⟩ role := by
    intro r role caller a h
    cases h
  let roles : RingBuffer Nat :=
    { empty 2 1 1 with
      producers := #[{ cursor := atRest, held := true }]
      consumers := #[{ cursor := atRest, held := true }] }
  have hroles : Run .turns ⟨empty 2 1 1, fun _ => none⟩ [.silent, .silent]
      ⟨roles, fun _ => none⟩ :=
    (Run.none.snoc (@Step.takeProducer _ _ _ 0 _ rfl)).snoc (@Step.takeConsumer _ _ _ 0 _ rfl)
  have hpushed := @run_produce _ _ _ _ _ 0 0 (.push 7)
    { roles with slots := #[some 7, none], head := 1 } .done hroles
    ⟨rfl, by decide, fun _ => hfree _ _⟩ (by decide)
  have hpopped := @run_consume _ _ _ _ _ 0 0
    { roles with head := 1, tail := 1, firstHead := 1 } (.item 7) hpushed
    ⟨rfl, by decide, fun _ => hfree _ _⟩ (by decide)
  have hrun :=
    hpopped.snoc (@Step.produce _ _ _ 0 0 (.push 8) ⟨rfl, by decide, fun _ => hfree _ _⟩)
  have h := @run_delivers _ 2 1 1 _ _ _ rfl hrun (by decide) (by decide)
  exact ⟨_, _, hrun, by decide, rfl, h.1, h.2.1⟩

end Machine

end Lineage.RingBuffer

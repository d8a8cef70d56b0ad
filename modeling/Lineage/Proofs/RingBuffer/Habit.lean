import Lineage.Proofs.RingBuffer.Transcript

/-!
# Habits of producers

A *habit* says something of a producer, at each point of its calls and between them.  A habit is
*kept* if the steps of the producer keep it, and those of others do (`Habit.IsKept`).  Then all
producers of a machine that follow it once follow it on (`Machine.Follows.advance`), and if it lets
every call begin, they follow it along every run (`Machine.run_follows`).
-/

namespace Lineage.RingBuffer

variable {α : Type}

/-! ## Steps of a producer as steps of a call -/

section StepActivity

variable {r : RingBuffer α} {id : Nat} {p : ProducerPoint α}

theorem stepActivity_producing_fst :
    (r.stepActivity (.producing id p)).1 = (r.stepProducer id p).1 := by
  simp only [stepActivity]
  split <;> rename_i heq <;> rw [heq]

/-- A producer's call goes on if its step leads to a next point. -/
theorem exists_next_of_stepActivity {b : Activity α}
    (h : (r.stepActivity (.producing id p)).2 = some b) :
    ∃ q, b = .producing id q ∧ (r.stepProducer id p).2 = .next q := by
  simp only [stepActivity] at h
  split at h <;> rename_i heq <;> cases h
  exact ⟨_, rfl, congrArg Prod.snd heq⟩

/-- A producer's call is over if its step ends it. -/
theorem exists_ended_of_stepActivity (h : (r.stepActivity (.producing id p)).2 = none) :
    ∃ o, (r.stepProducer id p).2 = .ended o := by
  simp only [stepActivity] at h
  split at h <;> rename_i heq <;> cases h
  exact ⟨_, congrArg Prod.snd heq⟩

end StepActivity

/-! ## Habits -/

/-- Something that is said of a producer. -/
structure Habit (α : Type) where
  /-- What is said at a point of a call. -/
  during : Ledger α → RingBuffer α → Nat → ProducerPoint α → Prop
  /-- What is said between two calls. -/
  between : Ledger α → RingBuffer α → Nat → Prop

namespace Habit

variable {h : Habit α}

/-- What is said when this is left of a producer's call. -/
def After (h : Habit α) (l : Ledger α) (r : RingBuffer α) (id : Nat) :
    Progress (ProducerPoint α) α → Prop
  | .next p => h.during l r id p
  | .ended _ => h.between l r id

/-- What is said of the role of a call. -/
def OfActivity (h : Habit α) (l : Ledger α) (r : RingBuffer α) : Activity α → Prop
  | .producing id p => h.during l r id p
  | .consuming .. => True

/-- What is said of a role without a call. -/
def OfRole (h : Habit α) (l : Ledger α) (r : RingBuffer α) (role : Role) : Prop :=
  match role.side with
  | .producer => h.between l r role.id
  | .consumer => True

/-- The steps of a producer and those of others keep the habit. -/
structure IsKept (h : Habit α) : Prop where
  step : ∀ {l r id p}, Sound l r → id < r.producers.size → ProducerFits l r id p →
    h.during l r id p →
    h.After (l.add (r.producerMark id p)) (r.stepProducer id p).1 id (r.stepProducer id p).2
  during_frame : ∀ {l r l' r' id p}, Sound l r → Grows l r l' r' →
    SameProducer id l r l' r' →
    h.during l r id p → h.during l' r' id p
  between_frame : ∀ {l r l' r' id}, Sound l r → Grows l r l' r' →
    SameProducer id l r l' r' →
    h.between l r id → h.between l' r' id

namespace IsKept

variable {l l' : Ledger α} {r r' : RingBuffer α} (hkept : h.IsKept)

include hkept

/-- A step of a role keeps what is said of the calls of other roles. -/
theorem activity_frame (hs : Sound l r) {role : Role} (hadvance : Advance role l r l' r')
    {a : Activity α} (hne : a.role ≠ role) (ha : h.OfActivity l r a) : h.OfActivity l' r' a := by
  cases a with
  | consuming => trivial
  | producing id p =>
      exact hkept.during_frame hs hadvance.grows (hadvance.producer (Role.producer_apart hne)) ha

/-- A step of a role keeps what is said of other roles without a call. -/
theorem role_frame (hs : Sound l r) {role other : Role} (hadvance : Advance role l r l' r')
    (hne : other ≠ role) (ho : h.OfRole l r other) : h.OfRole l' r' other := by
  obtain ⟨side, id⟩ := other
  cases side with
  | consumer => trivial
  | producer =>
      exact hkept.between_frame hs hadvance.grows (hadvance.producer (Role.producer_apart hne)) ho

end IsKept

end Habit

namespace Machine

/-- All producers follow a habit. -/
def Follows (h : Habit α) (l : Ledger α) (m : Machine α) : Prop :=
  m.Each (h.OfActivity l m.ring) (h.OfRole l m.ring)

namespace Follows

variable {h : Habit α} {l : Ledger α} {m m' : Machine α} (hkept : h.IsKept) (hfits : Fits l m)

include hkept hfits

/-- Nobody notices that someone takes or leaves a role. -/
theorem setRing {r' : RingBuffer α} (hm : m.Follows h l) (hu : Unnoticed l m.ring r') :
    ({ m with ring := r' } : Machine α).Follows h l where
  calls {caller a} ha := by
    cases a with
    | consuming => trivial
    | producing id p => exact hkept.during_frame hfits.sound hu.grows (hu.producer id) (hm.calls ha)
  rests {role} hfree := by
    have hrole := hm.rests hfree
    obtain ⟨side, id⟩ := role
    cases side with
    | consumer => trivial
    | producer => exact hkept.between_frame hfits.sound hu.grows (hu.producer id) hrole

/-- A call goes one step on. -/
theorem advance (hm : m.Follows h l) {caller : Nat} {a : Activity α}
    (ha : m.calls caller = some a) :
    ({ m.setCall caller (m.ring.stepActivity a).2 with ring := (m.ring.stepActivity a).1 } :
      Machine α).Follows h (l.add (m.ring.mark a)) := by
  have hadvance := stepActivity_advance hfits.sound (hfits.calls ha)
  refine Each.advance hm (hfits.role_ne ha) ha (fun b hb => ?_) (fun hnone => ?_)
    (fun hne => hkept.activity_frame hfits.sound hadvance hne)
    fun hne => hkept.role_frame hfits.sound hadvance hne
  · cases a with
    | consuming id p =>
        cases b with
        | producing => cases role_stepActivity hb
        | consuming => trivial
    | producing id p =>
        obtain ⟨q, rfl, hnext⟩ := exists_next_of_stepActivity hb
        have hstep := hkept.step hfits.sound (hfits.calls ha).1 (hfits.calls ha).2 (hm.calls ha)
        rw [hnext] at hstep
        rw [stepActivity_producing_fst]
        exact hstep
  · cases a with
    | consuming id p => trivial
    | producing id p =>
        obtain ⟨o, hended⟩ := exists_ended_of_stepActivity hnone
        have hstep := hkept.step hfits.sound (hfits.calls ha).1 (hfits.calls ha).2 (hm.calls ha)
        rw [hended] at hstep
        rw [stepActivity_producing_fst]
        exact hstep

/-- A step of the machine keeps the habit if what begins there may begin. -/
theorem step {mark : Mark α} {word : Word α} (hm : m.Follows h l) (hstep : Step .turns m mark m')
    (hword : Utters m m' word)
    (hstart : ∀ id call, word = .asks id call → h.between l m.ring id →
      h.during l m.ring id call.start) :
    m'.Follows h (l.add mark) := by
  rcases hfits.word_cases hstep hword with ⟨rfl, -, r', hu, rfl⟩ |
    ⟨rfl, caller, a, hcaller, hfree, rfl, hsaid⟩ | ⟨caller, a, ha, rfl, -, rfl⟩
  · exact hm.setRing hkept hfits hu
  · refine Each.start hm hcaller ?_
    rcases hsaid with ⟨id, call, rfl, rfl⟩ | ⟨id, rfl, -⟩
    · exact hstart id call rfl (hm.rests hfree)
    · trivial
  · exact hm.advance hkept hfits ha

end Follows

/-- A habit that lets every call begin is followed along every run. -/
theorem run_follows {h : Habit α} (hkept : h.IsKept)
    (hstart : ∀ {l r id}, h.between l r id →
      ∀ call : ProducerCall α, h.during l r id call.start)
    {capacity producers consumers : Nat} {r : RingBuffer α} {marks : List (Mark α)}
    {m : Machine α} (hnew : RingBuffer.new capacity producers consumers = .ok r)
    (hbegin : ∀ id, h.between {} r id) (hrun : Run .turns ⟨r, fun _ => none⟩ marks m) :
    m.Follows h (ledger marks) := by
  induction hrun with
  | none =>
      refine ⟨fun ha => (by cases ha), fun {role} _ => ?_⟩
      obtain ⟨side, id⟩ := role
      cases side with
      | consumer => trivial
      | producer => exact hbegin id
  | snoc hbefore hstep ih =>
      obtain ⟨word, hword⟩ := hstep.exists_word
      rw [ledger_snoc]
      exact ih.step hkept (run_fits hnew hbefore).1 hstep hword fun id call _ hbetween =>
        hstart hbetween call

end Machine

end Lineage.RingBuffer

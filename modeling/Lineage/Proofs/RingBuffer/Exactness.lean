import Lineage.Proofs.RingBuffer.Alone
import Lineage.Proofs.RingBuffer.Reservations

/-!
# Reservations are exact

Every step of a transcript is admitted by the diary of the steps before it
(`Machine.reservations_exact`).  `Machine.Notes` is the invariant: what is noted of every producer,
that what was handed over is stored and published, and that no item was taken from an open claim or
from beyond it.

A fill and a release end within a few steps of their own.  A pop ends, when it runs alone, if no
producer shows its position or an earlier one (`pop_ends`).
-/

namespace Lineage.RingBuffer

variable {α : Type}

/-! ## What cannot be undone -/

section Ledger

variable {l : Ledger α} {r : RingBuffer α}

/-- What is stored for a published position stays there. -/
theorem published_add (hs : Sound l r) {mark : Mark α} (hadmits : l.Admits r.capacity mark)
    {k id : Nat} {a : α} (hstored : l.stored k = some (id, a)) (hpublished : l.Published k) :
    (l.add mark).stored k = some (id, a) ∧ (l.add mark).Published k := by
  cases mark with
  | claimed j base count =>
      refine ⟨hstored, fun {i b c} hc hb => ?_⟩
      rcases Ledger.claim_of_claimed hc with ⟨rfl, rfl, rfl⟩ | ⟨-, hc⟩
      · have howner := hadmits.2 k hb.1 hb.2
        rw [hs.stored_owner hstored] at howner
        cases howner
      · exact hpublished hc hb
  | stored j position item =>
      obtain ⟨⟨b, c, hc, hb⟩, -⟩ := hadmits
      have hne : k ≠ position := by
        rintro rfl
        exact hpublished hc hb
      exact ⟨(if_neg hne).trans hstored, hpublished⟩
  | published j =>
      exact ⟨hstored, fun hc => hpublished (Ledger.claim_of_published hc).2⟩
  | silent | wanted | took | returned => exact ⟨hstored, hpublished⟩

/-- No item was taken at or beyond the first position of a claim under way. -/
def TakenBelow (l : Ledger α) : Prop :=
  ∀ k j b c, l.taken k = true → l.claim j = some (b, c) → k < b

/-- A consumer takes only what lies below all claims, and new claims begin at `head`. -/
theorem TakenBelow.step (hs : Sound l r) {a : Activity α} (ha : ActivityFits l r a)
    (h : TakenBelow l) :
    TakenBelow (l.add (r.mark a)) := by
  have hgrows := (stepActivity_advance hs ha).grows
  intro k j b c htaken hclaim
  by_cases hold : l.taken k = true
  · rcases hgrows.claim hclaim with hc | hnew
    · exact h k j b c hold hc
    · obtain ⟨x, hx⟩ := hs.taken_stored hold
      exact Nat.lt_of_lt_of_le (hs.owner_iff.mp ⟨x.1, hs.stored_owner hx⟩) hnew
  · cases a with
    | producing id p => cases p <;> exact absurd htaken hold
    | consuming id p =>
        cases p with
        | take position =>
            rcases Ledger.taken_of_took htaken with rfl | ht
            · exact ha.2.2.2 j b c hclaim
            · exact absurd ht hold
        | _ => exact absurd htaken hold

/-- What was handed over is stored and published. -/
def HandedOver (l : Ledger α) (d : Diary α) : Prop :=
  ∀ k a, d.handed k = some a → ∃ id, l.stored k = some (id, a) ∧ l.Published k

end Ledger

/-! ## Calls of either side -/

/-- What the diary has of a call under way. -/
def ActivityNoted (l : Ledger α) (r : RingBuffer α) (d : Diary α) : Activity α → Prop
  | .producing id p => Noted l r id (d.call id) (d.reservation id) p
  | .consuming _ _ => True

/-- What the diary has of a role without a call. -/
def RoleNoted (l : Ledger α) (r : RingBuffer α) (d : Diary α) (role : Role) : Prop :=
  match role.side with
  | .producer => Keeps l r role.id (d.reservation role.id)
  | .consumer => True

/-- What the diary has of a role when this is left of its call. -/
def NotedAfter (l : Ledger α) (r : RingBuffer α) (d : Diary α) (role : Role) :
    Option (Activity α) → Prop
  | some a => ActivityNoted l r d a
  | none => RoleNoted l r d role

section Activities

variable {l : Ledger α} {r : RingBuffer α} {d : Diary α}

theorem wordOf_producing (r : RingBuffer α) (id : Nat) (p : ProducerPoint α) :
    r.wordOf (.producing id p) = (r.stepProducer id p).2.word id := by
  simp only [wordOf, outcome?]
  cases (r.stepProducer id p).2 <;> rfl

/-- Of the steps of a consumer the diary takes no note. -/
theorem add_consuming (r : RingBuffer α) (d : Diary α) (id : Nat) (p : ConsumerPoint α) :
    d.add (r.mark (.consuming id p), r.wordOf (.consuming id p)) = d := by
  have hmark : d.note (r.consumerMark id p) = d := by cases p <;> rfl
  simp only [Diary.add, mark, hmark, wordOf, outcome?]
  cases (r.stepConsumer id p).2 <;> rfl

/-- What a producer does or says at a step does not touch what the diary has of another one. -/
theorem add_producing_ne {id j : Nat} (h : j ≠ id) (p : ProducerPoint α) :
    let d' := d.add (r.mark (.producing id p), r.wordOf (.producing id p))
    d'.call j = d.call j ∧ d'.reservation j = d.reservation j := by
  have hmark : (d.note (r.producerMark id p)).reservation j = d.reservation j := by
    cases p with
    | claim c => exact d.reservation_note_ne h _ _
    | _ => rfl
  simp only [Diary.add, mark, wordOf_producing]
  cases (r.stepProducer id p).2 with
  | next p' => exact ⟨congrFun (d.call_note _) j, hmark⟩
  | ended o =>
      simp only [Progress.word]
      rw [Diary.call_hear_ends, Diary.call_note, Diary.reservation_hear_ends_ne _ h, hmark]
      exact ⟨rfl, rfl⟩

/-- A step does not touch what the diary has of producers of other roles. -/
theorem add_of_role_ne {a : Activity α} {id : Nat} (h : ⟨.producer, id⟩ ≠ a.role) :
    let d' := d.add (r.mark a, r.wordOf a)
    d'.call id = d.call id ∧ d'.reservation id = d.reservation id := by
  cases a with
  | producing j p => exact add_producing_ne (fun heq => h (congrArg (Role.mk .producer) heq)) p
  | consuming j p =>
      rw [add_consuming]
      exact ⟨rfl, rfl⟩

/-- A step keeps what the diary has of the calls of other roles. -/
theorem ActivityNoted.frame (hs : Sound l r) {a b : Activity α} (ha : ActivityFits l r a)
    (hne : b.role ≠ a.role) (h : ActivityNoted l r d b) :
    ActivityNoted (l.add (r.mark a)) (r.stepActivity a).1 (d.add (r.mark a, r.wordOf a)) b := by
  cases b with
  | consuming => trivial
  | producing id p =>
      obtain ⟨hcall, hopen⟩ := add_of_role_ne (r := r) (d := d) hne
      simp only [ActivityNoted, hcall, hopen]
      exact Noted.frame hs ((stepActivity_advance hs ha).producer (Role.producer_apart hne)) h

/-- A step keeps what the diary has of other roles without a call. -/
theorem RoleNoted.frame (hs : Sound l r) {a : Activity α} (ha : ActivityFits l r a) {role : Role}
    (hne : role ≠ a.role) (h : RoleNoted l r d role) :
    RoleNoted (l.add (r.mark a)) (r.stepActivity a).1 (d.add (r.mark a, r.wordOf a)) role := by
  obtain ⟨side, id⟩ := role
  cases side with
  | consumer => trivial
  | producer =>
      obtain ⟨-, hopen⟩ := add_of_role_ne (r := r) (d := d) hne
      simp only [RoleNoted, hopen]
      exact Keeps.frame hs ((stepActivity_advance hs ha).producer (Role.producer_apart hne)) h

/-- A step keeps what the diary has of the call that takes it. -/
theorem stepActivity_noted (hs : Sound l r) {a : Activity α} (ha : ActivityFits l r a)
    (h : ActivityNoted l r d a) :
    NotedAfter (l.add (r.mark a)) (r.stepActivity a).1 (d.add (r.mark a, r.wordOf a)) a.role
      (r.stepActivity a).2 := by
  cases a with
  | consuming id p =>
      simp only [stepActivity]
      split <;> trivial
  | producing id p =>
      have hnoted := stepProducer_noted hs ha.1 ha.2 h
      rw [wordOf_producing]
      simp only [stepActivity, mark] at hnoted ⊢
      split <;> rename_i heq <;> rw [heq] at hnoted ⊢ <;> exact hnoted

/-- A release that is done has come to the step with which its claim is published. -/
theorem eq_rest_of_release {id : Nat} {open? : Option (Reservation α)} {p : ProducerPoint α}
    (hn : Noted l r id (some .release) open? p) (hended : (r.stepProducer id p).2 = .ended .done) :
    p = .rest ∧ Tallies l id open? := by
  have hclaim : ∀ c : Claim α, some ProducerCall.release ≠ some c.call := by
    intro c
    cases c <;> simp [Claim.call]
  cases p with
  | check c | compare c | scan c => exact absurd hn.1 (hclaim c)
  | setReserved count | checkOffset item offset => cases hn.1
  | fill item position =>
      obtain ⟨offset, hcall, -⟩ := hn
      cases hcall
  | countFilled => cases hended
  | readFilled reserved =>
      simp only [stepProducer] at hended
      split at hended <;> cases hended
  | rest =>
      rcases hn with ⟨⟨item, hcall⟩, -⟩ | ⟨-, htallies⟩
      · cases hcall
      · exact ⟨rfl, htallies⟩
  | _ => cases hended

/-- With the claim of a producer that has all its items, its positions are published. -/
theorem handed_over_rest (hs : Sound l r) {id : Nat} {res : Reservation α}
    (h : Tallies l id (some res)) {k : Nat} {a : α} (hbase : res.base ≤ k)
    (hlt : k < res.base + res.count) (hfill : res.fills (k - res.base) = some a) :
    ∃ j, (l.add (.published id)).stored k = some (j, a) ∧
      (l.add (.published id)).Published k := by
  obtain ⟨hclaim, hfills⟩ := h res rfl
  have hstored := hfills (k - res.base) (by omega)
  rw [hfill, Nat.add_sub_cancel' hbase] at hstored
  obtain ⟨⟨j, b⟩, hx, rfl⟩ := Option.map_eq_some_iff.mp hstored.symm
  refine ⟨j, hx, fun {i b c} hc hcovers => ?_⟩
  obtain ⟨hne, hc⟩ := Ledger.claim_of_published hc
  have howner := hs.claim_owner hc k hcovers.1 hcovers.2
  rw [hs.claim_owner hclaim k hbase hlt] at howner
  exact hne (Option.some.inj howner).symm

/-- What a step hands over is stored, and published with the step. -/
theorem HandedOver.step (hs : Sound l r) {a : Activity α} (ha : ActivityFits l r a)
    (hn : ActivityNoted l r d a) (h : HandedOver l d) :
    HandedOver (l.add (r.mark a)) (d.add (r.mark a, r.wordOf a)) := by
  have hold : ∀ {k x}, d.handed k = some x →
      ∃ id, (l.add (r.mark a)).stored k = some (id, x) ∧ (l.add (r.mark a)).Published k := by
    intro k x hx
    obtain ⟨id, hstored, hpublished⟩ := h k x hx
    exact ⟨id, published_add hs (stepActivity_admits hs ha) hstored hpublished⟩
  intro k x hx
  cases a with
  | consuming id p =>
      rw [add_consuming] at hx
      exact hold hx
  | producing id p =>
      rw [wordOf_producing] at hx
      simp only [Diary.add, mark] at hx
      cases hended : (r.stepProducer id p).2 with
      | next p' =>
          rw [hended] at hx
          exact hold ((congrFun (d.handed_note _) k).symm.trans hx)
      | ended o =>
          rw [hended] at hx
          rcases Diary.handed_hear_ends hx with hx | ⟨hcall, rfl, res, hres, hbase, hlt, hfill⟩
          · exact hold ((congrFun (d.handed_note _) k).symm.trans hx)
          · rw [Diary.call_note] at hcall
            have hrelease : Noted l r id (some .release) (d.reservation id) p := by
              rw [← hcall]
              exact hn
            obtain ⟨rfl, htallies⟩ := eq_rest_of_release hrelease hended
            exact handed_over_rest hs (hres ▸ htallies : Tallies l id (some res)) hbase hlt hfill

end Activities

/-! ## Calls that end -/

/-- A call of a producer ends within some steps of its own, whatever happens to the ring buffer
between them. -/
def EndsWithin (id : Nat) : Nat → ProducerPoint α → Prop
  | 0, _ => False
  | n + 1, p =>
      ∀ (r : RingBuffer α) p', (r.stepProducer id p).2 = .next p' → EndsWithin id n p'

theorem endsWithin_fill (id : Nat) (item : α) (offset : Nat) :
    EndsWithin id 4 (ProducerCall.fill item offset).start := by
  have hcount : EndsWithin id 1 (.countFilled : ProducerPoint α) := fun r p' h => by cases h
  have hfill : ∀ position, EndsWithin id 2 (.fill item position) := by
    intro position r p' h
    simp only [stepProducer] at h
    split at h <;> cases h
    exact hcount
  have hread : EndsWithin id 3 (.readBase item offset) := by
    intro r p' h
    cases h
    exact hfill _
  intro r p' h
  simp only [ProducerCall.start, stepProducer] at h
  split at h <;> cases h
  exact hread

theorem endsWithin_release (id : Nat) :
    EndsWithin id 5 (ProducerCall.release : ProducerCall α).start := by
  have hclear : EndsWithin id 3 (.clearReserved : ProducerPoint α) := by
    intro r p' h
    cases h
    intro r p' h
    cases h
    intro r p' h
    cases h
  intro r p' h
  cases h
  intro r p' h
  simp only [stepProducer] at h
  split at h <;> cases h
  exact hclear

/-- A fill that finds its offset outside the reservation ends with its first step, which changes
nothing. -/
theorem stepProducer_filled_false {r : RingBuffer α} {id : Nat} {p : ProducerPoint α}
    (h : (r.stepProducer id p).2 = .ended (.filled false)) :
    (r.stepProducer id p).1 = r ∧ ∃ item offset, p = (ProducerCall.fill item offset).start := by
  cases p with
  | check c =>
      simp only [stepProducer] at h
      split at h <;> cases h
  | compare | scan | fill | readFilled =>
      simp only [stepProducer] at h
      split at h <;> cases h
  | checkOffset item offset =>
      refine ⟨?_, item, offset, rfl⟩
      simp only [stepProducer] at h ⊢
      split at h <;> cases h
      rename_i hle
      rw [if_pos hle]
  | _ => cases h

section Pops

variable {l : Ledger α} {r : RingBuffer α} {id position : Nat} {p : ConsumerPoint α}

/-- A consumer in its wait loop comes to compare its position with a kept bound. -/
theorem reaches_compare (id : Nat) (h : p.awaited = some position) :
    ∃ kept, Reaches (runConsumer id) (r.producers.size + 3) r p { r with firstHead := kept }
      (.compare position) := by
  have hkeep : ∀ floor, Reaches (runConsumer id) 1 r (.keep position floor)
      { r with firstHead := floor }
      (.compare position) := fun _ => reaches_of_stepConsumer rfl
  cases p with
  | compare =>
      cases h
      exact ⟨r.firstHead, 0, Nat.zero_le _, fun _ => rfl⟩
  | readHead =>
      cases h
      have hread : Reaches (runConsumer id) 1 r (.readHead position) r (.scan position r.head 0) :=
        reaches_of_stepConsumer rfl
      exact ⟨_, ((hread.trans (reaches_keep_claims id r position r.head 0)).trans (hkeep _)).mono
        (by omega)⟩
  | scan k floor next =>
      cases h
      exact ⟨_, ((reaches_keep_claims id r position floor next).trans (hkeep _)).mono
        (by omega)⟩
  | keep k floor =>
      cases h
      exact ⟨floor, (hkeep floor).mono (by omega)⟩
  | _ => cases h

/-- It goes on within two passes if no producer shows its position or an earlier one. -/
theorem awaited_reaches_take (id : Nat) (h : p.awaited = some position)
    (hitem : position < r.claimFloor) :
    ∃ kept, Reaches (runConsumer id) (2 * r.producers.size + 8) r p { r with firstHead := kept }
      (.take position) := by
  obtain ⟨kept, hcompare⟩ := reaches_compare (r := r) id h
  by_cases hkept : kept ≤ position
  · obtain ⟨kept', -, htake⟩ := reaches_take id (r := { r with firstHead := kept })
      (Nat.le_trans hkept (Nat.le_of_lt hitem)) hitem
    exact ⟨kept', (hcompare.trans htake).mono (show _ ≤ _ by dsimp only; omega)⟩
  · have htake : Reaches (runConsumer id) 1 { r with firstHead := kept } (.compare position)
        { r with firstHead := kept } (.take position) :=
          reaches_of_stepConsumer (by simp [stepConsumer, hkept])
    exact ⟨kept, (hcompare.trans htake).mono (by omega)⟩

theorem ConsumerFits.after (hp : ConsumerFits l r id p) (h : p.awaited = some position) :
    After l id position := by
  cases p with
  | compare | readHead => cases h; exact hp
  | scan | keep => cases h; exact hp.1
  | _ => cases h

/-- A pop that runs alone ends with the item of its position if no producer shows the position or an
earlier one. -/
theorem ConsumerFits.pop_ends (hs : Sound l r) (hp : ConsumerFits l r id p)
    (h : p.awaited = some position) (hitem : position < r.claimFloor) :
    ∃ r' j a, runConsumer id (2 * r.producers.size + 10) r p = some (r', .item a) ∧
      l.stored position = some (j, a) := by
  obtain ⟨hhead, hcursors⟩ := le_claimFloor_iff.mp hitem
  have hpublished : l.Published position := published_of_lt fun i b c hc =>
    Nat.lt_of_lt_of_le (hcursors i (hs.claim_lt hc)) (hs.cursor_le_claim hc)
  obtain ⟨j, a, -, hstored⟩ := hs.exists_stored hhead hpublished
  have hslot : r.slot position = some a := hs.slot_stored hstored (hp.after h).2
  obtain ⟨kept, htake⟩ := awaited_reaches_take id h hitem
  have hends : ∀ fuel, runConsumer id (fuel + 2) { r with firstHead := kept } (.take position) =
      some ((({ r with firstHead := kept } : RingBuffer α).setSlot position none).setConsumerCursor
        id atRest, .item a) := by
    intro fuel
    have hslot' : ({ r with firstHead := kept } : RingBuffer α).slot position = some a := hslot
    simp only [runConsumer, stepConsumer, hslot']
  exact ⟨_, j, a, htake.ends hends (Nat.le_refl _), hstored⟩

end Pops

/-! ## The machine -/

namespace Machine

/-- The diary agrees with the ledger and with the calls under way. -/
structure Notes (l : Ledger α) (d : Diary α) (m : Machine α) : Prop where
  fits : Fits l m
  noted : m.Each (ActivityNoted l m.ring d) (RoleNoted l m.ring d)
  handed : HandedOver l d
  below : TakenBelow l

section Notes

variable {l : Ledger α} {d : Diary α} {m m' : Machine α}

theorem notes_new {capacity producers consumers : Nat} {r : RingBuffer α}
    (h : RingBuffer.new capacity producers consumers = .ok r) :
    Notes {} {} ⟨r, fun _ => none⟩ where
  fits := fits_new h
  noted :=
    { calls := fun ha => by cases ha
      rests := fun {role} hfree => by
        have hrests := (fits_new h).rests hfree
        obtain ⟨side, id⟩ := role
        cases side with
        | consumer => trivial
        | producer =>
            have hbetween : Between {} r id := hrests
            rcases hbetween with hidle | hfilling
            · exact ⟨tallies_none, hidle.2⟩
            · cases hfilling.claim }
  handed := fun _ _ hk => by cases hk
  below := fun _ _ _ _ hk => by cases hk

/-- Someone changes the ring buffer and no call notices. -/
theorem Notes.setRing {r' : RingBuffer α} (h : Notes l d m) (hu : Unnoticed l m.ring r') :
    Notes l d { m with ring := r' } where
  fits := h.fits.setRing hu
  noted :=
    { calls := fun {caller a} ha => by
        have hnoted := h.noted.calls ha
        cases a with
        | consuming => trivial
        | producing id p => exact Noted.frame h.fits.sound (hu.producer id) hnoted
      rests := fun {role} hfree => by
        have hnoted := h.noted.rests hfree
        obtain ⟨side, id⟩ := role
        cases side with
        | consumer => trivial
        | producer => exact Keeps.frame h.fits.sound (hu.producer id) hnoted }
  handed := h.handed
  below := h.below

/-- Every open reservation is a claim under way. -/
theorem Notes.claim (h : Notes l d m) {id : Nat} {res : Reservation α}
    (hres : d.reservation id = some res) :
    l.claim id = some (res.base, res.count) := by
  by_cases hfree : m.IsFree ⟨.producer, id⟩
  · have hkeeps : Keeps l m.ring id (d.reservation id) := h.noted.rests hfree
    exact (hkeeps.1 res hres).1
  · obtain ⟨caller, a, ha, hrole⟩ := exists_call_of_not_free hfree
    cases a with
    | consuming j p => cases hrole
    | producing j p =>
        cases hrole
        exact Noted.claim (h.fits.calls ha).2 (h.noted.calls ha) hres

/-- The diary admits what a consumer does. -/
theorem Notes.admits_consuming (h : Notes l d m) {caller id : Nat} {p : ConsumerPoint α}
    (ha : m.calls caller = some (.consuming id p)) :
    d.Admits (m.ring.mark (.consuming id p), m.ring.wordOf (.consuming id p)) := by
  refine ⟨?_, ?_⟩
  · cases p with
    | rest position item =>
        obtain ⟨-, htaken, j, a, rfl, -, hstored⟩ := (h.fits.calls ha).2
        refine ⟨fun i res hres => h.below _ _ _ _ htaken (h.claim hres), a, rfl,
          rfl, fun b hb => ?_⟩
        obtain ⟨i, hb, -⟩ := h.handed _ _ hb
        rw [hstored] at hb
        cases hb
        rfl
    | _ => trivial
  · unfold wordOf
    cases m.ring.outcome? (.consuming id p) <;> trivial

/-- A producer asks for something. -/
theorem Notes.asks (h : Notes l d m) {caller id : Nat} {call : ProducerCall α}
    (hcaller : m.calls caller = none) (hfree : m.IsFree ⟨.producer, id⟩)
    (hfits : Fits l (m.setCall caller (some (.producing id call.start)))) :
    Notes l (d.hear (.asks id call)) (m.setCall caller (some (.producing id call.start))) where
  fits := hfits
  noted := by
    -- Nobody else's call is noted anew, since the role was free.
    have hothers : m.Each (ActivityNoted l m.ring (d.hear (.asks id call)))
        (RoleNoted l m.ring (d.hear (.asks id call))) := by
      refine ⟨fun {c b} hb => ?_, h.noted.rests⟩
      have hnoted := h.noted.calls hb
      cases b with
      | consuming => trivial
      | producing j p =>
          have hne : j ≠ id := fun heq => hfree c _ hb (congrArg (Role.mk .producer) heq)
          simp only [ActivityNoted, Diary.hear, if_neg hne]
          exact hnoted
    refine hothers.start hcaller ?_
    have hkeeps : Keeps l m.ring id (d.reservation id) := h.noted.rests hfree
    simp only [ActivityNoted, Diary.hear, if_pos]
    exact hkeeps.start call
  handed := h.handed
  below := h.below

/-- A step is admitted by the diary and keeps the invariant. -/
theorem Notes.step {mark : Mark α} {word : Word α} (h : Notes l d m)
    (hstep : Step .turns m mark m') (hword : Utters m m' word) :
    d.Admits (mark, word) ∧ Notes (l.add mark) (d.add (mark, word)) m' := by
  rcases h.fits.word_cases hstep hword with ⟨rfl, rfl, r', hu, rfl⟩ |
    ⟨rfl, caller, a, hcaller, hfree, rfl, hsaid⟩ | ⟨caller, a, ha, rfl, rfl, rfl⟩
  · exact ⟨⟨trivial, trivial⟩, h.setRing hu⟩
  · rcases hsaid with ⟨id, call, rfl, rfl⟩ | ⟨id, rfl, rfl⟩
    · exact ⟨⟨trivial, trivial⟩, h.asks hcaller hfree (h.fits.step hstep).2.1⟩
    · exact ⟨⟨trivial, trivial⟩, (h.fits.step hstep).2.1, h.noted.start hcaller trivial,
        h.handed, h.below⟩
  · have hfits := h.fits.calls ha
    have hnoted := stepActivity_noted h.fits.sound hfits (h.noted.calls ha)
    refine ⟨?_, h.fits.advance ha, ?_, h.handed.step h.fits.sound hfits (h.noted.calls ha),
      h.below.step h.fits.sound hfits⟩
    · cases a with
      | producing id p =>
          rw [wordOf_producing]
          exact stepProducer_diary_admits hfits.2 (h.noted.calls ha)
      | consuming id p => exact h.admits_consuming ha
    · refine h.noted.advance (h.fits.role_ne ha) ha (fun b hb => ?_) (fun hnone => ?_)
        (fun hne hb => hb.frame h.fits.sound hfits hne)
          (fun hne hrole => hrole.frame h.fits.sound hfits hne)
      · rw [hb] at hnoted
        exact hnoted
      · rw [hnone] at hnoted
        exact hnoted

end Notes

/-- The invariant holds along every transcript from a new ring buffer, and every step is
admitted. -/
theorem transcript_notes {capacity producers consumers : Nat} {r : RingBuffer α}
    {entries : List (Mark α × Word α)} {m : Machine α}
    (hnew : RingBuffer.new capacity producers consumers = .ok r)
    (h : Transcript .turns ⟨r, fun _ => none⟩ entries m) :
    Notes (ledger (entries.map Prod.fst)) (diary entries) m ∧
      ∀ before entry after, entries = before ++ entry :: after →
        (diary before).Admits entry := by
  induction h with
  | none => exact ⟨notes_new hnew, fun before entry after h => by cases before <;> cases h⟩
  | @snoc m m' entries mark word _ hstep hword ih =>
      obtain ⟨hnotes, hbefore⟩ := ih
      obtain ⟨hadmits, hnotes'⟩ := hnotes.step hstep hword
      rw [List.map_append, List.map_singleton, ledger_snoc, diary_snoc]
      exact ⟨hnotes', forall_split_snoc hbefore hadmits⟩

/-- Reservations are exact, whatever the order of the steps of all calls.

The steps keep the discipline of the ledger, so a pop returns the position that it has claimed.  And
the diary of the steps before admits every step.  So no item from an open reservation or from beyond
it is returned.  A fill tells whether its offset was reserved.  A release succeeds if all offsets
were filled, and only then.  What was released is returned as it was filled in last.

A fill that finds its offset outside the reservation changes nothing.  Fills and releases end within
a few steps of their own.  A pop whose position no producer holds up ends when it runs alone, with
the item that was released. -/
theorem reservations_exact {capacity producers consumers : Nat} {r : RingBuffer α}
    {entries : List (Mark α × Word α)} {m : Machine α}
    (hnew : RingBuffer.new capacity producers consumers = .ok r)
    (h : Transcript .turns ⟨r, fun _ => none⟩ entries m) :
    Lawful capacity (entries.map Prod.fst) ∧
      (∀ before entry after, entries = before ++ entry :: after →
        (diary before).Admits entry) ∧
      (∀ caller id p, m.calls caller = some (.producing id p) →
        (m.ring.stepProducer id p).2 = .ended (.filled false) →
          (m.ring.stepProducer id p).1 = m.ring ∧
            ∃ item offset, p = (ProducerCall.fill item offset).start) ∧
      (∀ id (item : α) offset, EndsWithin id 4 (ProducerCall.fill item offset).start) ∧
      (∀ id, EndsWithin id 5 (ProducerCall.release : ProducerCall α).start) ∧
      ∀ caller id p position, m.calls caller = some (.consuming id p) →
        p.awaited = some position →
        position < m.ring.claimFloor →
          ∃ r' a,
            runConsumer id (2 * m.ring.producers.size + 10) m.ring p = some (r', .item a) ∧
            ∀ b, (diary entries).handed position = some b → a = b := by
  obtain ⟨hnotes, hadmits⟩ := transcript_notes hnew h
  refine ⟨(run_fits hnew h.run).2.1, hadmits,
    fun _ _ _ _ hended => stepProducer_filled_false hended, endsWithin_fill, endsWithin_release,
      fun caller id p position ha hawaited hitem => ?_⟩
  obtain ⟨r', j, a, hends, hstored⟩ :=
    (hnotes.fits.calls ha).2.pop_ends hnotes.fits.sound hawaited hitem
  refine ⟨r', a, hends, fun b hb => ?_⟩
  obtain ⟨i, hb, -⟩ := hnotes.handed _ _ hb
  rw [hstored] at hb
  cases hb
  rfl

/-- A reservation of both slots is filled out of order and one slot twice.  The release gives the
items that were filled in last. -/
theorem reservations_exact_refilled :
    ∃ (entries : List (Mark Nat × Word Nat)) (m : Machine Nat),
      Transcript .turns ⟨empty 2 1 1, fun _ => none⟩ entries m ∧
        .claimed 0 0 2 ∈ entries.map Prod.fst ∧ .returned 0 1 (some 9) ∈
          entries.map Prod.fst ∧
          ∀ before entry after, entries = before ++ entry :: after →
            (diary before).Admits entry := by
  have hfree : ∀ (r : RingBuffer Nat) role, IsFree ⟨r, fun _ => none⟩ role := by
    intro r role caller a h
    cases h
  let roles : RingBuffer Nat :=
    { empty 2 1 1 with
      producers := #[{ cursor := atRest, held := true }]
      consumers := #[{ cursor := atRest, held := true }] }
  have hroles : Run .turns ⟨empty 2 1 1, fun _ => none⟩ [.silent, .silent]
      ⟨roles, fun _ => none⟩ :=
    (Run.none.snoc (@Step.takeProducer _ _ _ 0 _ rfl)).snoc (@Step.takeConsumer _ _ _ 0 _ rfl)
  let reserved (filled : Nat) (slots : Array (Option Nat)) : RingBuffer Nat :=
    { roles with
      producers := #[{ cursor := 0, reserved := 2, filled := filled, held := true }]
      slots := slots
      head := 2 }
  have hreserved := @run_produce _ _ _ _ _ 0 0 (.reserve 2) (reserved 0 #[none, none]) .done hroles
    ⟨rfl, by decide, fun _ => hfree _ _⟩ (by decide)
  have hlast :=
    @run_produce _ _ _ _ _ 0 0 (.fill 8 1) (reserved 1 #[none, some 8]) (.filled true) hreserved
      ⟨rfl, by decide, fun _ => hfree _ _⟩ (by decide)
  have hfirst :=
    @run_produce _ _ _ _ _ 0 0 (.fill 7 0) (reserved 2 #[some 7, some 8]) (.filled true) hlast
      ⟨rfl, by decide, fun _ => hfree _ _⟩ (by decide)
  have hagain :=
    @run_produce _ _ _ _ _ 0 0 (.fill 9 1) (reserved 2 #[some 7, some 9]) (.filled true) hfirst
      ⟨rfl, by decide, fun _ => hfree _ _⟩ (by decide)
  have hreleased :=
    @run_produce _ _ _ _ _ 0 0 .release { roles with slots := #[some 7, some 9], head := 2 }
      .done hagain ⟨rfl, by decide, fun _ => hfree _ _⟩ (by decide)
  have hpopped := @run_consume _ _ _ _ _ 0 0
    { roles with slots := #[none, some 9], head := 2, tail := 1, firstHead := 2 }
      (.item 7) hreleased
    ⟨rfl, by decide, fun _ => hfree _ _⟩ (by decide)
  have hrun :=
    @run_consume _ _ _ _ _ 0 0 { roles with head := 2, tail := 2, firstHead := 2 } (.item 9)
      hpopped ⟨rfl, by decide, fun _ => hfree _ _⟩ (by decide)
  obtain ⟨entries, hmarks, htranscript⟩ := hrun.exists_transcript
  have h := @reservations_exact _ 2 1 1 _ _ _ rfl htranscript
  refine ⟨entries, _, htranscript, ?_, ?_, h.2.1⟩
  · rw [hmarks]
    decide
  · rw [hmarks]
    decide

end Machine

end Lineage.RingBuffer

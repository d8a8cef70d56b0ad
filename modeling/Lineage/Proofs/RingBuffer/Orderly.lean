import Lineage.Proofs.RingBuffer.Exactness
import Lineage.Proofs.RingBuffer.Habit
import Lineage.Proofs.RingBuffer.Misuse
import Lineage.Proofs.RingBuffer.Simulation

/-!
# Producers that keep to the rules

A producer keeps to the rules if it pushes only while it has reserved nothing, fills what it has
reserved offset by offset, and releases it when all of it is filled.  `Stance` says how far it is
between two calls, and `Stance.after` which call may come next.

What a producer has reserved is in the diary, so the diary also says that it stands where its calls
have led it (`Diary.Stands`, `Diary.Minds`).  A call that minds the rules does not fail
(`Diary.Minds.not_fails`), and neither does any call of a machine whose producers all do
(`Machine.Orderly.not_fails`).
-/

namespace Lineage.RingBuffer

variable {α : Type}

/-! ## Stances -/

/-- Where a producer that keeps to the rules stands between two calls. -/
inductive Stance where
  /-- It has reserved nothing. -/
  | clear
  /-- It has reserved `count` positions and filled the first `filled` of them. -/
  | reserved (count filled : Nat)
  deriving DecidableEq, Repr

namespace Stance

/-- Where a call leaves a producer, if it may make that call. -/
def after (capacity : Nat) : Stance → ProducerCall α → Option Stance
  | .clear, .push _ => some .clear
  | .clear, .reserve count =>
      if 0 < count ∧ count ≤ capacity then some (.reserved count 0) else none
  | .reserved count filled, .fill _ offset =>
    if offset = filled ∧ filled < count then some (.reserved count (filled + 1)) else none
  | .reserved count filled, .release => if filled = count then some .clear else none
  | _, _ => none

/-- Where some calls leave a producer, if it may make them one after the other. -/
def afterAll (capacity : Nat) (s : Stance) (calls : List (ProducerCall α)) : Option Stance :=
  calls.foldlM (after capacity) s

section After

variable {capacity : Nat} {s s' : Stance} {item : α} {count offset : Nat}

theorem after_push (h : s.after capacity (.push item) = some s') : s = .clear ∧ s' = .clear := by
  cases s <;> cases h
  exact ⟨rfl, rfl⟩

theorem after_reserve (h : s.after capacity (.reserve count : ProducerCall α) = some s') :
    s = .clear ∧ s' = .reserved count 0 ∧ 0 < count ∧ count ≤ capacity := by
  cases s with
  | reserved => cases h
  | clear =>
      simp only [after] at h
      split at h <;> cases h
      rename_i hcount
      exact ⟨rfl, rfl, hcount⟩

theorem after_fill (h : s.after capacity (.fill item offset) = some s') :
    ∃ count, s = .reserved count offset ∧ s' = .reserved count (offset + 1) ∧
      offset < count := by
  cases s with
  | clear => cases h
  | reserved count filled =>
      simp only [after] at h
      split at h <;> cases h
      rename_i hoffset
      obtain ⟨rfl, hlt⟩ := hoffset
      exact ⟨count, rfl, rfl, hlt⟩

theorem after_release (h : s.after capacity (.release : ProducerCall α) = some s') :
    ∃ count, s = .reserved count count ∧ s' = .clear := by
  cases s with
  | clear => cases h
  | reserved count filled =>
      simp only [after] at h
      split at h <;> cases h
      rename_i hfilled
      exact ⟨count, by rw [hfilled], rfl⟩

/-- One more call. -/
theorem afterAll_take_succ {calls : List (ProducerCall α)} {n : Nat} {call : ProducerCall α}
    (hcall : calls[n]? = some call) (h : s.afterAll capacity (calls.take n) = some s') :
    s.afterAll capacity (calls.take (n + 1)) = s'.after capacity call := by
  rw [afterAll, List.take_add_one, hcall, List.foldlM_append]
  rw [afterAll] at h
  simp [h]

/-- Who may make some calls may make the first of them. -/
theorem exists_afterAll_take {calls : List (ProducerCall α)}
    (h : s.afterAll capacity calls = some s') (n : Nat) :
    ∃ s'', s.afterAll capacity (calls.take n) = some s'' := by
  rw [afterAll, ← List.take_append_drop n calls, List.foldlM_append] at h
  obtain ⟨s'', hfirst, -⟩ := Option.bind_eq_some_iff.mp h
  exact ⟨s'', hfirst⟩

/-- Who has reserved positions may fill them one after the other. -/
theorem afterAll_fills (item : α) (filled rest : Nat) :
    (Stance.reserved (filled + rest) filled).afterAll capacity
      ((List.range' filled rest).map (.fill item)) =
      some (.reserved (filled + rest) (filled + rest)) := by
  induction rest generalizing filled with
  | zero => rfl
  | succ rest ih =>
      rw [List.range'_succ, List.map_cons, afterAll, List.foldlM_cons, after,
        if_pos ⟨rfl, Nat.lt_add_of_pos_right (Nat.succ_pos rest)⟩]
      have hrest := ih (filled + 1)
      rw [Nat.add_assoc, Nat.add_comm 1 rest] at hrest
      exact hrest

end After

end Stance


/-! ## What the diary has of a producer -/

namespace Diary

/-- What a producer has reserved is what its stance says. -/
def Stands (d : Diary α) (id : Nat) : Stance → Prop
  | .clear => d.reservation id = none
  | .reserved count filled =>
      ∃ res, d.reservation id = some res ∧ res.count = count ∧ ∀ k, k < filled →
        (res.fills k).isSome = true

/-- A producer is at a point of a call that it may make, and `s` is where the call will leave it.  A
reserve opens its reservation on the way, and otherwise the producer stands where it stood before
the call. -/
def Minds (d : Diary α) (capacity id : Nat) (s : Stance) (p : ProducerPoint α) : Prop :=
  ∃ before call, d.call id = some call ∧ Stance.after capacity before call = some s ∧
    ((p.IsCheck ∨ ∀ count, call ≠ .reserve count) → d.Stands id before)

variable {d d' : Diary α} {capacity id : Nat} {s s' : Stance} {p : ProducerPoint α}

theorem Stands.of_eq (hreservation : d'.reservation id = d.reservation id) (h : d.Stands id s) :
    d'.Stands id s := by
  cases s <;> simpa only [Stands, hreservation] using h

theorem Minds.of_eq (hcall : d'.call id = d.call id)
    (hreservation : d'.reservation id = d.reservation id) (h : d.Minds capacity id s p) :
    d'.Minds capacity id s p := by
  obtain ⟨before, call, hasked, hafter, hstands⟩ := h
  exact ⟨before, call, hcall.trans hasked, hafter, fun hp => (hstands hp).of_eq hreservation⟩

/-- A producer makes a call that it may make. -/
theorem Stands.asks (h : d.Stands id s) {call : ProducerCall α}
    (hafter : s.after capacity call = some s') :
    (d.hear (.asks id call)).Minds capacity id s' call.start :=
  ⟨s, call, if_pos rfl, hafter, fun _ => h.of_eq rfl⟩

/-- Only the claim of a reserve is noted. -/
theorem note_of_call {call : ProducerCall α} (hcall : d.call id = some call)
    (hne : ∀ count, call ≠ .reserve count) (r : RingBuffer α) (p : ProducerPoint α) :
    d.note (r.producerMark id p) = d := by
  cases p with
  | claim c =>
      simp only [producerMark, note, hcall]
      split
      · rename_i heq
        cases heq
        exact absurd rfl (hne _)
      · rfl
  | _ => rfl

end Diary

section Steps

variable {l : Ledger α} {r : RingBuffer α} {d : Diary α} {id : Nat} {s : Stance}
  {p q : ProducerPoint α}
  {o : Outcome α}

open Diary

/-- A call that minds the rules does so at its next point. -/
theorem Diary.Minds.next (h : d.Minds r.capacity id s p)
    (hnext : (r.stepProducer id p).2 = .next q) :
    (d.add (r.producerMark id p, .nothing)).Minds r.capacity id s q := by
  obtain ⟨before, call, hcall, hafter, hstands⟩ := h
  refine ⟨before, call, (congrFun (d.call_note _) id).trans hcall, hafter, fun hq => ?_⟩
  rcases hq with hcheck | hne
  · have hp := isCheck_of_next (Prod.ext rfl hnext : r.stepProducer id p = (_, .next q)) hcheck
    rw [(stepProducer_of_isCheck hp).2]
    exact hstands (.inl hp)
  · rw [show d.add (r.producerMark id p, .nothing) = d from note_of_call hcall hne r p]
    exact hstands (.inr hne)

/-- A producer that stands with `count` positions reserved has reserved as many. -/
theorem Keeps.reserved_eq {count filled : Nat} (h : Keeps l r id (d.reservation id))
    (hstands : d.Stands id (.reserved count filled)) : (r.producer id).reserved = count := by
  obtain ⟨res, hres, rfl, -⟩ := hstands
  rw [h.2, hres]
  rfl

/-- A call that minds the rules does not fail. -/
theorem Diary.Minds.not_fails (hp : ProducerFits l r id p)
    (hn : Noted l r id (d.call id) (d.reservation id) p) (h : d.Minds r.capacity id s p)
    (hended : (r.stepProducer id p).2 = .ended o) : ¬ o.IsFailure := by
  intro ho
  have hcheck := isCheck_of_fails hended ho
  obtain ⟨before, call, hcall, hafter, hstands⟩ := h
  replace hstands := hstands (.inl hcheck)
  cases p with
  | check c =>
      obtain ⟨hasked, hkeeps⟩ := hn
      obtain rfl : call = c.call := Option.some.inj (hcall.symm.trans hasked)
      have hok : ¬ r.Breaks id c.call := by
        cases c with
        | push item =>
            obtain ⟨rfl, -⟩ := Stance.after_push hafter
            have hnone : d.reservation id = none := hstands
            simp [Claim.call, Breaks, hkeeps.2, hnone]
        | reserve count =>
            obtain ⟨rfl, -, hpos, hcapacity⟩ := Stance.after_reserve hafter
            have hnone : d.reservation id = none := hstands
            simp [Claim.call, Breaks, hkeeps.2, hnone, Nat.ne_of_gt hpos, Nat.not_lt.mpr hcapacity]
      simp only [stepProducer] at hended
      cases hclaim : r.checkClaim id c with
      | error m => exact hok (checkClaim_fails_iff.mp ⟨m, hclaim⟩)
      | ok u =>
          rw [hclaim] at hended
          cases hended
  | checkOffset item offset =>
      obtain ⟨hasked, hkeeps⟩ := hn
      obtain rfl : call = .fill item offset := Option.some.inj (hcall.symm.trans hasked)
      obtain ⟨count, rfl, -, hlt⟩ := Stance.after_fill hafter
      have hreserved := hkeeps.reserved_eq hstands
      simp only [stepProducer, hreserved, if_neg (Nat.not_le.mpr hlt)] at hended
      cases hended
  | readReserved => cases hended
  | readFilled reserved =>
      obtain ⟨answered, hanswered, hanswers⟩ := stepProducer_answers hp hn hended
      obtain rfl : answered = .release := Option.some.inj (hanswered.symm.trans hn.1)
      obtain rfl : call = .release := Option.some.inj (hcall.symm.trans hanswered)
      obtain ⟨count, rfl, -⟩ := Stance.after_release hafter
      obtain ⟨res, hres, rfl, hall⟩ := hstands
      have hcomplete : res.IsComplete := hall
      rw [hanswers res hres, if_pos hcomplete] at ho
      exact ho
  | _ => cases hcheck

/-- A reserve that does not fail has its reservation when it ends. -/
theorem Noted.eq_of_reserve {open? : Option (Reservation α)} {count : Nat}
    (hn : Noted l r id (some (.reserve count)) open? p)
    (hended : (r.stepProducer id p).2 = .ended o) (ho : ¬ o.IsFailure) :
    open? = some { base := (r.producer id).cursor, count := count } := by
  cases p with
  | check c =>
      simp only [stepProducer] at hended
      split at hended <;> cases hended
      exact absurd trivial ho
  | compare c base | scan c base =>
      simp only [stepProducer] at hended
      split at hended <;> cases hended
  | setReserved n =>
      obtain ⟨hcall, hopen⟩ := hn
      cases hcall
      exact hopen
  | checkOffset | readFilled => cases hn.1
  | fill item position =>
      obtain ⟨offset, hcall, -⟩ := hn
      cases hcall
  | countFilled =>
      obtain ⟨item, offset, hcall, -⟩ := hn
      cases hcall
  | rest =>
      rcases hn with ⟨⟨item, hcall⟩, -⟩ | ⟨hcall, -⟩ <;> cases hcall
  | _ => cases hended

/-- A call that minds the rules leaves its producer where it says. -/
theorem Diary.Minds.ended (hp : ProducerFits l r id p)
    (hn : Noted l r id (d.call id) (d.reservation id) p)
    (h : d.Minds r.capacity id s p) (hended : (r.stepProducer id p).2 = .ended o) :
    (d.add (r.producerMark id p, .ends ⟨.producer, id⟩ o)).Stands id s := by
  have ho := h.not_fails hp hn hended
  obtain ⟨answered, hanswered, hanswers⟩ := stepProducer_answers hp hn hended
  obtain ⟨before, call, hcall, hafter, hstands⟩ := h
  obtain rfl : answered = call := Option.some.inj (hanswered.symm.trans hcall)
  cases answered with
  | push item =>
      obtain ⟨rfl, rfl⟩ := Stance.after_push hafter
      rw [add, note_of_call hcall (by simp) r p, hear_claim (c := .push item) hcall]
      exact hstands (.inr (by simp))
  | reserve count =>
      obtain ⟨rfl, rfl, -, -⟩ := Stance.after_reserve hafter
      rw [hcall] at hn
      have hopen := hn.eq_of_reserve hended ho
      have hsame : d.note (r.producerMark id p) = d := by
        cases p with
        | claim c => cases hended
        | _ => rfl
      rw [add, hsame, hear_claim (c := .reserve count) hcall]
      exact ⟨_, hopen, rfl, fun k hk => absurd hk (Nat.not_lt_zero k)⟩
  | fill item offset =>
      obtain ⟨count, rfl, rfl, hlt⟩ := Stance.after_fill hafter
      obtain ⟨res, hres, rfl, hall⟩ := hstands (.inr (by simp))
      obtain rfl : o = .filled true := by
        rw [hanswers, Diary.reservedCount, hres]
        exact congrArg Outcome.filled (decide_eq_true hlt)
      rw [add, note_of_call hcall (by simp) r p]
      refine ⟨res.fill offset item, ?_, rfl, fun k hk => ?_⟩
      · rw [reservation_hear_filled hcall, hres]
        rfl
      · by_cases hlast : k = offset
        · simp [Reservation.fill, hlast]
        · simpa [Reservation.fill, hlast] using hall k (by omega)
  | release =>
      obtain ⟨count, rfl, rfl⟩ := Stance.after_release hafter
      obtain ⟨res, hres, rfl, hall⟩ := hstands (.inr (by simp))
      have hcomplete : res.IsComplete := hall
      obtain rfl : o = .done := by rw [hanswers res hres, if_pos hcomplete]
      rw [add, note_of_call hcall (by simp) r p]
      simp only [Stands, hear, hcall, reservation_close_self]

end Steps

/-! ## Who holds a role -/

section Held

variable {r r' : RingBuffer α} {role other : Role}

/-- Nobody holds a role of a new ring buffer. -/
theorem isHeld_empty (capacity producers consumers : Nat) (role : Role) :
    (empty capacity producers consumers : RingBuffer α).isHeld role = false := by
  obtain ⟨side, id⟩ := role
  cases side <;> simp [isHeld]

theorem isHeld_setProducer {id : Nat} {p : ProducerRole} (hp : p.held = (r.producer id).held)
    (role : Role) :
    (r.setProducer id p).isHeld role = r.isHeld role := by
  obtain ⟨side, j⟩ := role
  cases side with
  | consumer => rfl
  | producer =>
      by_cases hid : id < r.producers.size
      · simp only [isHeld, producer_setProducer r hid]
        split
        · rename_i heq
          rw [hp, heq]
        · rfl
      · rw [setProducer, Array.setIfInBounds, dif_neg hid]

theorem isHeld_setConsumer {id : Nat} {c : ConsumerRole} (hc : c.held = (r.consumer id).held)
    (role : Role) :
    (r.setConsumer id c).isHeld role = r.isHeld role := by
  obtain ⟨side, j⟩ := role
  cases side with
  | producer => rfl
  | consumer =>
      by_cases hid : id < r.consumers.size
      · simp only [isHeld, consumer_setConsumer r hid]
        split
        · rename_i heq
          rw [hc, heq]
        · rfl
      · rw [setConsumer, Array.setIfInBounds, dif_neg hid]

/-- Calls do not change who holds a role. -/
theorem isHeld_stepActivity (a : Activity α) (role : Role) :
    (r.stepActivity a).1.isHeld role = r.isHeld role := by
  cases a with
  | producing id p =>
      rw [stepActivity_producing_fst]
      cases p with
      | check | compare | scan | checkOffset | readFilled =>
          simp only [stepProducer]
          split <;> rfl
      | announce | publish | clearFilled | setReserved | countFilled | clearReserved
      | clearCount | rest =>
          exact isHeld_setProducer (by rfl) role
      | _ => rfl
  | consuming id p =>
      cases p with
      | compare | scan =>
          simp only [stepActivity, stepConsumer]
          split
          next heq => split at heq <;> cases heq <;> rfl
          next heq => split at heq <;> cases heq
      | announce | publish | rest =>
          simp only [stepActivity, stepConsumer, setConsumerCursor]
          exact isHeld_setConsumer (by rfl) role
      | _ => rfl

/-- Who is not kept from a role can take it. -/
theorem exists_take (h : ¬ r.IsBarred role) : ∃ r', r.take role = .ok r' := by
  obtain ⟨side, id⟩ := role
  cases side with
  | producer =>
      cases htake : r.takeProducer id with
      | ok r' => exact ⟨r', htake⟩
      | error e => exact absurd (takeProducer_fails_iff.mp ⟨e, htake⟩) h
  | consumer =>
      cases htake : r.takeConsumer id with
      | ok r' => exact ⟨r', htake⟩
      | error e => exact absurd (takeConsumer_fails_iff.mp ⟨e, htake⟩) h

/-- Who takes a role holds it, and nobody else notices. -/
theorem isHeld_take (h : r.take role = .ok r') (other : Role) :
    r'.isHeld other = if other = role then true else r.isHeld other := by
  obtain ⟨side, id⟩ := role
  obtain ⟨side', j⟩ := other
  cases side with
  | producer =>
      simp only [take, takeProducer] at h
      split at h
      · cases h
      · rename_i hid
        split at h <;> cases h
        cases side' with
        | consumer => rfl
        | producer =>
            simp only [isHeld, producer_setProducer r (Nat.lt_of_not_le hid),
              Role.mk.injEq, true_and]
            split <;> rfl
  | consumer =>
      simp only [take, takeConsumer] at h
      split at h
      · cases h
      · rename_i hid
        split at h <;> cases h
        cases side' with
        | producer => rfl
        | consumer =>
            simp only [isHeld, consumer_setConsumer r (Nat.lt_of_not_le hid),
              Role.mk.injEq, true_and]
            split <;> rfl

/-- Who leaves a role takes it from nobody else. -/
theorem isHeld_leave_ne (hne : other ≠ role) : (r.leave role).isHeld other = r.isHeld other := by
  obtain ⟨side, id⟩ := role
  obtain ⟨side', j⟩ := other
  cases side with
  | producer =>
      cases side' with
      | consumer => rfl
      | producer =>
          have hj : j ≠ id := fun heq => hne (congrArg (Role.mk .producer) heq)
          simp only [isHeld, leave, leaveProducer, producer_setProducer_ne r hj]
  | consumer =>
      cases side' with
      | producer => rfl
      | consumer =>
          have hj : j ≠ id := fun heq => hne (congrArg (Role.mk .consumer) heq)
          simp only [isHeld, leave, leaveConsumer, consumer_setConsumer_ne r hj]

end Held

/-! ## Calls of either side -/

/-- No call comes back to the checks of a claim. -/
theorem stepActivity_ne_check {r : RingBuffer α} {a : Activity α} {id : Nat} {c : Claim α} :
    (r.stepActivity a).2 ≠ some (.producing id (.check c)) := by
  intro h
  obtain ⟨q, rfl, hnext⟩ := Machine.stepActivity_eq_some_producing h
  have hq := isCheck_of_next hnext trivial
  replace hnext := congrArg Prod.snd hnext
  cases q with
  | check | checkOffset | readFilled =>
      simp only [stepProducer] at hnext
      split at hnext <;> cases hnext
  | readReserved => cases hnext
  | _ => cases hq

/-- A call minds the rules. -/
def ActivityMinds (d : Diary α) (capacity : Nat) (stance : Nat → Stance) : Activity α → Prop
  | .producing id p => d.Minds capacity id (stance id) p
  | .consuming _ _ => True

/-- A role without a call stands where its calls have led it. -/
def RoleStands (d : Diary α) (stance : Nat → Stance) (role : Role) : Prop :=
  match role.side with
  | .producer => d.Stands role.id (stance role.id)
  | .consumer => True

/-- What may be said, and where it leads the producers. -/
def Word.Moves (capacity : Nat) (stance stance' : Nat → Stance) : Word α → Prop
  | .asks id call =>
      (stance id).after capacity call = some (stance' id) ∧ ∀ j, j ≠ id →
        stance' j = stance j
  | .nothing | .ends .. => stance' = stance

section Activities

variable {d : Diary α} {r : RingBuffer α} {stance stance' : Nat → Stance}
  {a b : Activity α} {role : Role}
  {capacity : Nat}

theorem ActivityMinds.frame (hne : b.role ≠ a.role) (h : ActivityMinds d capacity stance b) :
    ActivityMinds (d.add (r.mark a, r.wordOf a)) capacity stance b := by
  cases b with
  | consuming => trivial
  | producing id p =>
      obtain ⟨hcall, hopen⟩ := add_of_role_ne (r := r) (d := d) hne
      exact Diary.Minds.of_eq hcall hopen h

theorem RoleStands.frame (hne : role ≠ a.role) (h : RoleStands d stance role) :
    RoleStands (d.add (r.mark a, r.wordOf a)) stance role := by
  obtain ⟨side, id⟩ := role
  cases side with
  | consumer => trivial
  | producer =>
      obtain ⟨-, hopen⟩ := add_of_role_ne (r := r) (d := d) hne
      exact Diary.Stands.of_eq hopen h

end Activities

/-! ## The machine -/

namespace Machine

/-- A caller starts a call of a role that is free, and others do not notice. -/
theorem Each.begin {m : Machine α} {P P' : Activity α → Prop} {Q Q' : Role → Prop}
    {caller : Nat} {a : Activity α} (h : m.Each P Q) (hcaller : m.calls caller = none)
    (hfree : m.IsFree a.role) (ha : P' a)
    (hP : ∀ {b : Activity α}, b.role ≠ a.role → P b → P' b)
    (hQ : ∀ {role}, role ≠ a.role → Q role → Q' role) :
    (m.setCall caller (some a)).Each P' Q' where
  calls {c b} hb := by
    by_cases hc : c = caller
    · subst hc
      rw [calls_setCall_self] at hb
      cases hb
      exact ha
    · rw [calls_setCall_ne hc] at hb
      exact hP (hfree c b hb) (h.calls hb)
  rests {role} hrole := by
    refine hQ (fun heq => hrole caller a (calls_setCall_self ..) heq.symm)
      (h.rests fun c b hb => hrole c b ?_)
    have hc : c ≠ caller := by
      rintro rfl
      rw [hcaller] at hb
      cases hb
    rw [calls_setCall_ne hc]
    exact hb

/-- A call that has an outcome is over after its step. -/
theorem calls_advance_of_ends (m : Machine α) {a : Activity α} {o : Outcome α}
    (ho : m.ring.outcome? a = some o) (caller : Nat) :
    (m.advance caller a).calls caller = none := by
  rw [calls_advance_self]
  cases hnext : (m.ring.stepActivity a).2 with
  | none => rfl
  | some b =>
      rw [outcome?_eq_none_iff.mpr ⟨b, hnext⟩] at ho
      cases ho

/-- Nobody changes the number of roles. -/
theorem run_sizes {capacity producers consumers : Nat} {r : RingBuffer α} {m : Machine α}
    {marks : List (Mark α)} (hnew : RingBuffer.new capacity producers consumers = .ok r)
    (hrun : Run .turns ⟨r, fun _ => none⟩ marks m) :
    m.ring.producers.size = producers ∧ m.ring.consumers.size = consumers := by
  induction hrun with
  | none => simp [(eq_empty_of_new hnew).1, empty]
  | snoc hbefore hstep ih =>
      have hfits := (run_fits hnew hbefore).1
      rcases hfits.step_cases hstep with
        ⟨-, r', hu, rfl⟩ | ⟨-, caller, a, -, -, -, -, rfl⟩ |
        ⟨caller, a, ha, -, rfl⟩
      · exact ⟨hu.grows.producers.trans ih.1, hu.grows.consumers.trans ih.2⟩
      · exact ih
      · have hgrows := (stepActivity_advance hfits.sound (hfits.calls ha)).grows
        exact ⟨hgrows.producers.trans ih.1, hgrows.consumers.trans ih.2⟩

/-- A machine that has come from a new ring buffer, and whose producers have kept to the rules.
`stance` says where each of them stands, or will stand after its call. -/
def Orderly (capacity producers consumers : Nat) (stance : Nat → Stance) (m : Machine α) :
    Prop :=
  ∃ r entries, RingBuffer.new capacity producers consumers = .ok r ∧
    Transcript .turns ⟨r, fun _ => none⟩ entries m ∧
      m.Each (ActivityMinds (diary entries) capacity stance) (RoleStands (diary entries) stance)

variable {capacity producers consumers : Nat} {stance stance' : Nat → Stance} {m m' : Machine α}

theorem orderly_new {r : RingBuffer α} (h : RingBuffer.new capacity producers consumers = .ok r) :
    Orderly capacity producers consumers (fun _ => .clear) ⟨r, fun _ => none⟩ := by
  refine ⟨r, [], h, .none, ⟨fun ha => (by cases ha), fun {role} _ => ?_⟩⟩
  obtain ⟨side, id⟩ := role
  cases side <;> trivial

namespace Orderly

theorem sizes (h : Orderly capacity producers consumers stance m) :
    m.ring.producers.size = producers ∧ m.ring.consumers.size = consumers := by
  obtain ⟨r, entries, hnew, htranscript, -⟩ := h
  exact run_sizes hnew htranscript.run

/-- No call fails. -/
theorem not_fails (h : Orderly capacity producers consumers stance m) {caller : Nat}
    {a : Activity α} {o : Outcome α} (ha : m.calls caller = some a)
    (ho : m.ring.outcome? a = some o) : ¬ o.IsFailure := by
  obtain ⟨r, entries, hnew, htranscript, heach⟩ := h
  have hnotes := (transcript_notes hnew htranscript).1
  obtain rfl := (run_fits hnew htranscript.run).2.2
  cases a with
  | producing id p =>
      cases hended : (m.ring.stepProducer id p).2 with
      | next q => simp [outcome?, hended] at ho
      | ended o' =>
          obtain rfl : o' = o := by simpa [outcome?, hended] using ho
          exact (heach.calls ha).not_fails (hnotes.fits.calls ha).2 (hnotes.noted.calls ha) hended
  | consuming id p =>
      cases hended : (m.ring.stepConsumer id p).2 with
      | next q => simp [outcome?, hended] at ho
      | ended o' =>
          obtain rfl : o' = o := by simpa [outcome?, hended] using ho
          obtain ⟨x, rfl⟩ := (hnotes.fits.calls ha).2.ends hended
          exact fun hfails => hfails

/-- The checks of a claim pass. -/
theorem checkClaim_ok (h : Orderly capacity producers consumers stance m) {caller id : Nat}
    {c : Claim α} (ha : m.calls caller = some (.producing id (.check c))) :
    m.ring.checkClaim id c = .ok () := by
  cases hclaim : m.ring.checkClaim id c with
  | ok u => rfl
  | error e =>
      exact absurd trivial (h.not_fails ha (o := .misuse e)
        (by simp [outcome?, stepProducer, hclaim]))

/-- A step at which nothing is said that leads a producer astray. -/
theorem step {mark : Mark α} {word : Word α} (h : Orderly capacity producers consumers stance m)
    (hstep : Step .turns m mark m') (hword : Utters m m' word)
    (hmoves : word.Moves capacity stance stance') :
    Orderly capacity producers consumers stance' m' := by
  obtain ⟨r, entries, hnew, htranscript, heach⟩ := h
  have hnotes := (transcript_notes hnew htranscript).1
  refine ⟨r, _, hnew, htranscript.snoc hstep hword, ?_⟩
  rw [diary_snoc]
  rcases hnotes.fits.word_cases hstep hword with ⟨rfl, rfl, r', -, rfl⟩ |
    ⟨rfl, caller, a, hcaller, hfree, rfl, hsaid⟩ | ⟨caller, a, ha, rfl, rfl, rfl⟩
  · obtain rfl : stance' = stance := hmoves
    exact ⟨heach.calls, heach.rests⟩
  · rcases hsaid with ⟨id, call, rfl, rfl⟩ | ⟨id, rfl, rfl⟩
    · obtain ⟨hafter, hothers⟩ := hmoves
      have hstands : Diary.Stands _ id (stance id) := heach.rests hfree
      refine heach.begin hcaller hfree (hstands.asks hafter) (fun {b} hne hb => ?_)
        fun {role} hne hrole => ?_
      · cases b with
        | consuming => trivial
        | producing j p =>
            have hj : j ≠ id := fun heq => hne (congrArg (Role.mk .producer) heq)
            simp only [ActivityMinds, hothers j hj]
            exact Diary.Minds.of_eq (if_neg hj) rfl hb
      · obtain ⟨side, j⟩ := role
        cases side with
        | consumer => trivial
        | producer =>
            have hj : j ≠ id := fun heq => hne (congrArg (Role.mk .producer) heq)
            simp only [RoleStands, hothers j hj]
            exact Diary.Stands.of_eq rfl hrole
    · obtain rfl : stance' = stance := hmoves
      exact heach.start hcaller trivial
  · obtain rfl : stance' = stance := by
      unfold wordOf at hmoves
      split at hmoves <;> exact hmoves
    obtain rfl := (run_fits hnew htranscript.run).2.2
    have hfits := hnotes.fits.calls ha
    refine heach.advance (hnotes.fits.role_ne ha) ha (fun b hb => ?_) (fun hnone => ?_)
      (fun hne hb => hb.frame hne) fun hne hrole => hrole.frame hne
    · cases a with
      | consuming id p =>
          cases b with
          | producing => cases role_stepActivity hb
          | consuming => trivial
      | producing id p =>
          obtain ⟨q, rfl, hnext⟩ := exists_next_of_stepActivity hb
          rw [wordOf_producing, hnext]
          exact (heach.calls ha).next hnext
    · cases a with
      | consuming id p => trivial
      | producing id p =>
          obtain ⟨o, hended⟩ := exists_ended_of_stepActivity hnone
          rw [wordOf_producing, hended]
          exact (heach.calls ha).ended hfits.2 (hnotes.noted.calls ha) hended

/-! ### The steps one by one -/

/-- What leaves the calls as they are keeps the order. -/
theorem of_calls_eq {mark : Mark α} (h : Orderly capacity producers consumers stance m)
    (hstep : Step .turns m mark m') (hcalls : m'.calls = m.calls) :
    Orderly capacity producers consumers stance m' := by
  obtain ⟨word, hword⟩ := hstep.exists_word
  obtain rfl := hword.eq_nothing hcalls
  exact h.step hstep hword rfl

theorem take (h : Orderly capacity producers consumers stance m) {role : Role} {r : RingBuffer α}
    (htake : m.ring.take role = .ok r) :
    Orderly capacity producers consumers stance { m with ring := r } := by
  obtain ⟨side, id⟩ := role
  cases side with
  | producer => exact h.of_calls_eq (.takeProducer htake) rfl
  | consumer => exact h.of_calls_eq (.takeConsumer htake) rfl

theorem leave (h : Orderly capacity producers consumers stance m) {role : Role}
    (hheld : m.ring.isHeld role = true) (hfree : m.IsFree role) :
    Orderly capacity producers consumers stance { m with ring := m.ring.leave role } := by
  obtain ⟨side, id⟩ := role
  cases side with
  | producer => exact h.of_calls_eq (.leaveProducer hheld hfree) rfl
  | consumer => exact h.of_calls_eq (.leaveConsumer hheld hfree) rfl

theorem produce (h : Orderly capacity producers consumers stance m) {caller id : Nat}
    {call : ProducerCall α} {s : Stance} (hmay : MayStart .turns m caller ⟨.producer, id⟩)
    (hafter : (stance id).after capacity call = some s) :
    Orderly capacity producers consumers (fun j => if j = id then s else stance j)
      (m.setCall caller (some (.producing id call.start))) := by
  exact h.step (.produce call hmay) (.asks hmay.1 (calls_setCall_self ..))
    ⟨hafter.trans (congrArg some (if_pos rfl).symm), fun j hj => if_neg hj⟩

theorem consume (h : Orderly capacity producers consumers stance m) {caller id : Nat}
    (hmay : MayStart .turns m caller ⟨.consumer, id⟩) :
    Orderly capacity producers consumers stance
      (m.setCall caller (some (.consuming id .readTail))) := by
  have hstep : Step .turns m .silent (m.setCall caller (some (.consuming id .readTail))) :=
    .consume hmay
  obtain ⟨word, hword⟩ := hstep.exists_word
  rcases hword.of_start hmay.1 rfl with ⟨j, call, heq, -⟩ | ⟨j, -, rfl⟩
  · cases heq
  · exact h.step hstep hword rfl

theorem advance (h : Orderly capacity producers consumers stance m) {caller : Nat} {a : Activity α}
    (ha : m.calls caller = some a) :
    Orderly capacity producers consumers stance (m.advance caller a) := by
  have hstep : Step .turns m (m.ring.mark a) (m.advance caller a) := .advance ha
  obtain ⟨word, hword⟩ := hstep.exists_word
  refine h.step hstep hword ?_
  rw [hword.of_advance ha]
  unfold wordOf
  split <;> rfl

end Orderly

end Machine

end Lineage.RingBuffer

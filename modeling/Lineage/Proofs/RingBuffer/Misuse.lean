import Lineage.Proofs.RingBuffer.Alone
import Lineage.Proofs.RingBuffer.Reservations

/-!
# Calls that fail

A call of a producer fails when it breaks the rules, or when it fills an offset that is not
reserved.  It then has done nothing but check, as every check comes before the first write: a call
that has left its checks (`ProducerPoint.IsCheck`) does not fail any more.

So a failed call can be struck out.  `Machine.Attempt` is a call and what the others did in the
meantime.  Up to the failure, the steps of the others alone are a transcript too, and lead to the
machine that the failed call leaves behind (`Machine.Attempt.erase`).  What comes after is the same
with and without it.
-/

namespace Lineage.RingBuffer

variable {α : Type}

/-! ## Failures -/

/-- Whether a call has failed. -/
def Outcome.IsFailure : Outcome α → Prop
  | .misuse _ => True
  | .filled ok => ok = false
  | .done | .item _ => False

/-- Whether a call of a producer breaks the rules, or fills an offset that is not reserved. -/
def Breaks (r : RingBuffer α) (id : Nat) : ProducerCall α → Prop
  | .push _ => (r.producer id).reserved ≠ 0
  | .reserve count => count = 0 ∨ r.capacity < count ∨ (r.producer id).reserved ≠ 0
  | .fill _ offset => (r.producer id).reserved ≤ offset
  | .release => (r.producer id).filled ≠ (r.producer id).reserved

/-- Whether nobody can take a role. -/
def IsBarred (r : RingBuffer α) (role : Role) : Prop :=
  match role.side with
  | .producer => r.producers.size ≤ role.id ∨ r.isHeld role = true
  | .consumer => r.consumers.size ≤ role.id ∨ r.isHeld role = true

theorem takeProducer_fails_iff {r : RingBuffer α} {id : Nat} :
    (∃ e, r.takeProducer id = .error e) ↔ r.IsBarred ⟨.producer, id⟩ := by
  simp only [takeProducer, IsBarred, isHeld]
  by_cases hid : r.producers.size ≤ id
  · simp [hid]
  · by_cases hheld : (r.producer id).held = true <;> simp [hid, hheld]

theorem takeConsumer_fails_iff {r : RingBuffer α} {id : Nat} :
    (∃ e, r.takeConsumer id = .error e) ↔ r.IsBarred ⟨.consumer, id⟩ := by
  simp only [takeConsumer, IsBarred, isHeld]
  by_cases hid : r.consumers.size ≤ id
  · simp [hid]
  · by_cases hheld : (r.consumer id).held = true <;> simp [hid, hheld]

/-! ## Checks -/

/-- Whether a call is still at its checks. -/
def ProducerPoint.IsCheck : ProducerPoint α → Prop
  | .check _ | .checkOffset .. | .readReserved | .readFilled _ => True
  | _ => False

section Checks

variable {r r' : RingBuffer α} {id : Nat} {p q : ProducerPoint α} {o : Outcome α}

/-- A check changes nothing. -/
theorem stepProducer_of_isCheck (hp : p.IsCheck) :
    (r.stepProducer id p).1 = r ∧ r.producerMark id p = .silent := by
  refine ⟨?_, by cases p <;> first | rfl | cases hp⟩
  cases p with
  | check c =>
      simp only [stepProducer]
      split <;> rfl
  | checkOffset item offset =>
      simp only [stepProducer]
      split <;> rfl
  | readReserved => rfl
  | readFilled reserved =>
      simp only [stepProducer]
      split <;> rfl
  | _ => cases hp

/-- Checks come before everything else. -/
theorem isCheck_of_next (h : r.stepProducer id p = (r', .next q)) (hq : q.IsCheck) : p.IsCheck := by
  cases p with
  | check | checkOffset | readReserved | readFilled => trivial
  | compare c base =>
      simp only [stepProducer] at h
      split at h <;> cases h
      · exact hq
      · cases c <;> exact hq
  | scan c base floor next =>
      simp only [stepProducer] at h
      split at h <;> cases h <;> exact hq
  | fill item position =>
      simp only [stepProducer] at h
      split at h <;> cases h
      exact hq
  | _ => cases h <;> exact hq

/-- What fails is a check. -/
theorem isCheck_of_fails (h : (r.stepProducer id p).2 = .ended o) (ho : o.IsFailure) :
    p.IsCheck := by
  cases p with
  | check | checkOffset | readReserved | readFilled => trivial
  | fill item position =>
      simp only [stepProducer] at h
      split at h <;> cases h
      cases ho
  | compare c base =>
      simp only [stepProducer] at h
      split at h <;> cases h
  | scan c base floor next =>
      simp only [stepProducer] at h
      split at h <;> cases h
  | setReserved | countFilled | rest =>
      cases h
      cases ho
  | _ => cases h

/-- A check is made once. -/
theorem next_ne_of_isCheck (hp : p.IsCheck) : (r.stepProducer id p).2 ≠ .next p := by
  intro h
  cases p with
  | check c =>
      simp only [stepProducer] at h
      split at h <;> cases h
  | checkOffset item offset =>
      simp only [stepProducer] at h
      split at h <;> cases h
  | readReserved => cases h
  | readFilled reserved =>
      simp only [stepProducer] at h
      split at h <;> cases h
  | _ => cases hp

end Checks

/-! ## A call alone -/

section Alone

variable {r r' : RingBuffer α} {id : Nat} {o : Outcome α}

/-- A call that fails alone is at its checks and changes nothing. -/
theorem runProducer_fails {fuel : Nat} {p : ProducerPoint α}
    (h : runProducer id fuel r p = some (r', o)) (ho : o.IsFailure) : p.IsCheck ∧ r' = r := by
  induction fuel generalizing r p with
  | zero => cases h
  | succ fuel ih =>
      simp only [runProducer] at h
      cases hnext : r.stepProducer id p with
      | mk s progress =>
          rw [hnext] at h
          cases progress with
          | next q =>
              obtain ⟨hq, rfl⟩ := ih h
              have hp := isCheck_of_next hnext hq
              exact ⟨hp, (congrArg Prod.fst hnext).symm.trans (stepProducer_of_isCheck hp).1⟩
          | ended o' =>
              cases h
              have hp := isCheck_of_fails (congrArg Prod.snd hnext) ho
              exact ⟨hp, (congrArg Prod.fst hnext).symm.trans (stepProducer_of_isCheck hp).1⟩

/-- A claim is refused exactly when it breaks the rules. -/
theorem checkClaim_fails_iff {c : Claim α} :
    (∃ m, r.checkClaim id c = .error m) ↔ r.Breaks id c.call := by
  cases c with
  | push item =>
      by_cases h : (r.producer id).reserved = 0 <;> simp [checkClaim, Claim.call, Breaks, h]
  | reserve count =>
      simp only [checkClaim, Claim.call, Breaks]
      by_cases hpos : count = 0
      · simp [hpos]
      · by_cases hcap : r.capacity < count
        · simp [hpos, hcap]
        · by_cases hopen : (r.producer id).reserved = 0 <;> simp [hpos, hcap, hopen]

/-- A claim that is let through does not fail any more. -/
theorem claim_fails {c : Claim α} {fuel : Nat}
    (h : runProducer id (fuel + 1) r (.check c) = some (r', o)) (ho : o.IsFailure) :
    ∃ m, r.checkClaim id c = .error m := by
  cases hcheck : r.checkClaim id c with
  | error m => exact ⟨m, rfl⟩
  | ok u =>
      simp only [runProducer, stepProducer, hcheck] at h
      exact (runProducer_fails h ho).1.elim

/-- A release of what is filled does not fail any more. -/
theorem release_fails {fuel : Nat} (h : runProducer id (fuel + 2) r .readReserved = some (r', o))
    (ho : o.IsFailure) : (r.producer id).filled ≠ (r.producer id).reserved := by
  intro hfull
  simp only [runProducer, stepProducer, if_neg (Decidable.not_not.mpr hfull)] at h
  exact (runProducer_fails h ho).1.elim

/-- A call made alone fails exactly when it breaks the rules. -/
theorem produce_fails_iff {call : ProducerCall α} :
    (∃ r' o, r.produce id call = some (r', o) ∧ o.IsFailure) ↔ r.Breaks id call := by
  have hclaim : ∀ c : Claim α,
      (∃ r' o, runProducer id r.onePass r (.check c) = some (r', o) ∧ o.IsFailure) ↔
        r.Breaks id c.call := by
    intro c
    rw [← checkClaim_fails_iff]
    exact ⟨fun ⟨r', o, h, ho⟩ => claim_fails h ho,
      fun ⟨m, hm⟩ => ⟨r, .misuse m, runProducer_misuse hm _, trivial⟩⟩
  cases call with
  | push item => exact hclaim (.push item)
  | reserve count => exact hclaim (.reserve count)
  | fill item offset =>
      constructor
      · rintro ⟨r', o, h, ho⟩
        by_contra hlt
        rw [produce, onePass, runProducer_fill item (Nat.lt_of_not_le hlt)] at h
        cases h
        cases ho
      · intro hle
        exact ⟨r, .filled false, runProducer_fill_outside item hle _, rfl⟩
  | release =>
      constructor
      · exact fun ⟨r', o, h, ho⟩ => release_fails h ho
      · intro hfilled
        exact ⟨r, _, runProducer_release_unfilled hfilled _, trivial⟩

end Alone

/-! ## A call among others -/

namespace Machine

variable {sharing : Sharing} {start m m' : Machine α} {caller id : Nat} {call : ProducerCall α}
  {mark : Mark α} {word : Word α}

/-- A caller makes a call of a producer on a machine.  The steps from its start on are listed, and
again without those of the call itself. -/
inductive Attempt (sharing : Sharing) (caller id : Nat) (call : ProducerCall α)
    (m₀ : Machine α) : List (Mark α × Word α) → List (Mark α × Word α) → Machine α → Prop where
  /-- The call starts. -/
  | starts : MayStart sharing m₀ caller ⟨.producer, id⟩ →
      Attempt sharing caller id call m₀ [] []
        (m₀.setCall caller (some (.producing id call.start)))
  /-- Something else happens. -/
  | other {m m' : Machine α} {all others : List (Mark α × Word α)}
    {mark : Mark α} {word : Word α} :
      Attempt sharing caller id call m₀ all others m → Step sharing m mark m' →
        Utters m m' word →
      m'.calls caller = m.calls caller →
      Attempt sharing caller id call m₀ (all ++ [(mark, word)]) (others ++ [(mark, word)]) m'
  /-- The call goes one step on. -/
  | own {m : Machine α} {all others : List (Mark α × Word α)} {p q : ProducerPoint α}
    {r : RingBuffer α} :
      Attempt sharing caller id call m₀ all others m →
        m.calls caller = some (.producing id p) →
      m.ring.stepProducer id p = (r, .next q) →
      Attempt sharing caller id call m₀ (all ++ [(m.ring.producerMark id p, .nothing)]) others
        { m.setCall caller (some (.producing id q)) with ring := r }

theorem setCall_comm {c d : Nat} (h : c ≠ d) (a b : Option (Activity α)) :
    (m.setCall c a).setCall d b = (m.setCall d b).setCall c a := by
  unfold setCall
  congr 1
  funext e
  by_cases hc : e = c <;> by_cases hd : e = d <;> simp [hc, hd, h, Ne.symm h]

/-- What a step does to the call of a caller, if it does something to it. -/
theorem Step.caller_cases (h : Step sharing m mark m') (hne : m'.calls caller ≠ m.calls caller) :
    (mark = .silent ∧ ∃ a, MayStart sharing m caller a.role ∧ Begins a ∧
        m' = m.setCall caller (some a)) ∨
      ∃ a, m.calls caller = some a ∧ mark = m.ring.mark a ∧
        m' = { m.setCall caller (m.ring.stepActivity a).2 with
          ring := (m.ring.stepActivity a).1 } := by
  have hown : ∀ {c x}, m'.calls = (m.setCall c x).calls → caller = c := by
    intro c x hcalls
    by_contra hc
    exact hne ((congrFun hcalls caller).trans (calls_setCall_ne hc x))
  cases h with
  | takeProducer | takeConsumer | leaveProducer | leaveConsumer => exact absurd rfl hne
  | @produce c id call hmay =>
      obtain rfl := hown rfl
      exact .inl ⟨rfl, .producing id call.start, hmay, ⟨call, rfl⟩, rfl⟩
  | @consume c id hmay =>
      obtain rfl := hown rfl
      exact .inl ⟨rfl, .consuming id .readTail, hmay, rfl, rfl⟩
  | advance ha =>
      obtain rfl := hown rfl
      exact .inr ⟨_, ha, rfl, rfl⟩

/-- A call of a producer that goes on was one before. -/
theorem stepActivity_eq_some_producing {r : RingBuffer α} {a : Activity α} {p : ProducerPoint α}
    (h : (r.stepActivity a).2 = some (.producing id p)) :
    ∃ q, a = .producing id q ∧ r.stepProducer id q = ((r.stepActivity a).1, .next p) := by
  cases a with
  | consuming j q =>
      simp only [stepActivity] at h
      split at h <;> cases h
  | producing j q =>
      simp only [stepActivity] at h ⊢
      split at h <;> cases h
      rename_i heq
      exact ⟨q, rfl, heq⟩

/-- A call that is under way has begun, and its steps can be told from those of others. -/
theorem Transcript.exists_attempt {entries : List (Mark α × Word α)} {p : ProducerPoint α}
    (h : Transcript sharing start entries m) (hstart : start.calls caller = Option.none)
    (hp : m.calls caller = some (.producing id p)) :
    ∃ before m₀ call all others, entries = before ++ (.silent, .asks id call) :: all ∧
      Transcript sharing start before m₀ ∧
        Attempt sharing caller id call m₀ all others m := by
  induction h generalizing p with
  | none =>
      rw [hstart] at hp
      cases hp
  | @snoc m m' entries mark word hbefore hstep hword ih =>
      by_cases hsame : m'.calls caller = m.calls caller
      · obtain ⟨before, m₀, call, all, others, rfl, htranscript, hattempt⟩ :=
          ih (hsame ▸ hp)
        exact ⟨before, m₀, call, all ++ [(mark, word)], others ++ [(mark, word)], by simp,
          htranscript, hattempt.other hstep hword hsame⟩
      · rcases hstep.caller_cases hsame with
          ⟨rfl, a, hmay, hbegins, rfl⟩ | ⟨a, ha, rfl, rfl⟩
        · obtain rfl : a = .producing id p :=
            Option.some.inj ((calls_setCall_self ..).symm.trans hp)
          rcases hword.of_start hmay.1 hbegins with ⟨j, call, heq, rfl⟩ | ⟨j, heq, -⟩
          · simp only [Activity.producing.injEq] at heq
            obtain ⟨rfl, rfl⟩ := heq
            exact ⟨entries, m, call, [], [], rfl, hbefore, .starts hmay⟩
          · cases heq
        · have hnext : (m.ring.stepActivity a).2 = some (.producing id p) :=
            (calls_setCall_self ..).symm.trans hp
          obtain rfl : word = .nothing := by
            rw [hword.of_advance ha, wordOf, outcome?_eq_none_iff.mpr ⟨_, hnext⟩]
          obtain ⟨q, rfl, hpoint⟩ := stepActivity_eq_some_producing hnext
          obtain ⟨before, m₀, call, all, others, rfl, htranscript, hattempt⟩ := ih ha
          refine ⟨before, m₀, call, all ++ [(m.ring.producerMark id q, .nothing)], others,
            by simp [RingBuffer.mark], htranscript, ?_⟩
          rw [hnext]
          exact hattempt.own ha hpoint

/-! ### Without the call -/

theorem IsFree.setCall_none {role : Role} (h : m.IsFree role) :
    (m.setCall caller none).IsFree role := by
  intro c a ha
  by_cases hc : c = caller
  · subst hc
    rw [calls_setCall_self] at ha
    cases ha
  · rw [calls_setCall_ne hc] at ha
    exact h c a ha

/-- A caller other than one who makes a call may start a call without that one too. -/
theorem MayStart.setCall_none {role : Role} {c : Nat} (h : MayStart sharing m c role)
    (hne : c ≠ caller) : MayStart sharing (m.setCall caller none) c role :=
  ⟨(calls_setCall_ne hne _).trans h.1, h.2.1, fun hturns => (h.2.2 hturns).setCall_none⟩

/-- What others do during the checks of a call, they can do without the call. -/
theorem Step.erase {p : ProducerPoint α} (h : Step sharing m mark m')
    (hcaller : m.calls caller = some (.producing id p)) (hp : p.IsCheck)
    (hsame : m'.calls caller = m.calls caller) :
    Step sharing (m.setCall caller none) mark (m'.setCall caller none) := by
  have hbusy : ∀ {c role}, MayStart sharing m c role → c ≠ caller := by
    rintro c role hmay rfl
    rw [hmay.1] at hcaller
    cases hcaller
  cases h with
  | takeProducer hr => exact .takeProducer hr
  | takeConsumer hr => exact .takeConsumer hr
  | leaveProducer hheld hfree => exact .leaveProducer hheld hfree.setCall_none
  | leaveConsumer hheld hfree => exact .leaveConsumer hheld hfree.setCall_none
  | produce call hmay =>
      rw [setCall_comm (hbusy hmay)]
      exact .produce call (hmay.setCall_none (hbusy hmay))
  | consume hmay =>
      rw [setCall_comm (hbusy hmay)]
      exact .consume (hmay.setCall_none (hbusy hmay))
  | @advance c a ha =>
      have hne : c ≠ caller := by
        -- A check is made once, so a step of the call itself would have changed it.
        rintro rfl
        have hnext : (m.ring.stepActivity a).2 = some a :=
          (calls_setCall_self ..).symm.trans (hsame.trans ha)
        rw [ha] at hcaller
        cases hcaller
        obtain ⟨q, heq, hpoint⟩ := stepActivity_eq_some_producing hnext
        cases heq
        exact next_ne_of_isCheck hp (congrArg Prod.snd hpoint)
      have hstep : Step sharing (m.setCall caller Option.none) _ _ :=
        .advance ((calls_setCall_ne hne _).trans ha)
      rw [setCall_comm (Ne.symm hne)] at hstep
      exact hstep

/-- Without a call of which nothing is heard, the others say the same. -/
theorem Utters.erase (h : Utters m m' word) (hcaller : m.calls caller ≠ none)
    (hsame : m'.calls caller = m.calls caller) :
    Utters (m.setCall caller none) (m'.setCall caller none) word := by
  have hother : ∀ {c} (n : Machine α), c ≠ caller →
      (n.setCall caller none).calls c = n.calls c :=
    fun n hc => calls_setCall_ne hc none
  cases h with
  | nothing hquiet hgoes =>
      refine .nothing (fun c id p hnone => ?_) fun c hsome => ?_ <;> by_cases hc : c = caller
      · subst hc
        rw [calls_setCall_self]
        exact fun h => by cases h
      · rw [hother m hc] at hnone
        rw [hother m' hc]
        exact hquiet c id p hnone
      · subst hc
        exact absurd (calls_setCall_self ..) hsome
      · rw [hother m hc] at hsome
        rw [hother m' hc]
        exact hgoes c hsome
  | @asks c id call hnone hsome =>
      have hc : c ≠ caller := fun h => hcaller (h ▸ hnone)
      exact .asks ((hother m hc).trans hnone) ((hother m' hc).trans hsome)
  | @ends c a o hsome hnone hout =>
      have hc : c ≠ caller := fun h => hcaller (hsame ▸ h ▸ hnone)
      exact .ends ((hother m hc).trans hsome) ((hother m' hc).trans hnone) hout

/-- During the checks of a call, the steps of the others lead to the same machine without the
call. -/
theorem Attempt.erase {before all others : List (Mark α × Word α)} {m₀ : Machine α}
    (h : Attempt sharing caller id call m₀ all others m)
    (hbefore : Transcript sharing start before m₀) {p : ProducerPoint α}
    (hcaller : m.calls caller = some (.producing id p)) (hp : p.IsCheck) :
    Transcript sharing start (before ++ others) (m.setCall caller none) := by
  induction h generalizing p with
  | starts hmay =>
      rw [setCall_setCall, Machine.setCall_none hmay.1, List.append_nil]
      exact hbefore
  | @other m m' all others mark word hattempt hstep hword hsame ih =>
      have hcaller' := hsame.symm.trans hcaller
      rw [← List.append_assoc]
      exact (ih hcaller' hp).snoc (hstep.erase hcaller' hp hsame)
        (hword.erase (by simp [hcaller']) hsame)
  | @own m all others q p' r hattempt hq hpoint ih =>
      obtain rfl : p' = p := by
        have heq := (calls_setCall_self ..).symm.trans hcaller
        cases heq
        rfl
      have hcheck := isCheck_of_next hpoint hp
      have hring : r = m.ring :=
        (congrArg Prod.fst hpoint).symm.trans (stepProducer_of_isCheck hcheck).1
      have hsame := ih hq hcheck
      subst hring
      rw [← setCall_setCall m caller (some (.producing id p')) none] at hsame
      exact hsame

/-- A transcript that goes on. -/
theorem Transcript.append {before after : List (Mark α × Word α)}
    (h : Transcript sharing start before m) (h' : Transcript sharing m after m') :
    Transcript sharing start (before ++ after) m' := by
  induction h' with
  | none => rwa [List.append_nil]
  | snoc _ hstep hword ih =>
      rw [← List.append_assoc]
      exact ih.snoc hstep hword

/-- A step at which a call of a producer ends is the last one of that call. -/
theorem Step.of_ends {o : Outcome α} (h : Step sharing m mark m')
    (hword : Utters m m' (.ends ⟨.producer, id⟩ o)) :
    ∃ caller p, m.calls caller = some (.producing id p) ∧
      (m.ring.stepProducer id p).2 = .ended o ∧
      m' = { m.setCall caller none with ring := (m.ring.stepProducer id p).1 } := by
  generalize hw : Word.ends (⟨.producer, id⟩ : Role) o = word at hword
  cases hword with
  | nothing | asks => cases hw
  | @ends caller a o' hsome hnone hout =>
      cases a with
      | consuming j p => cases hw
      | producing j p =>
          cases hw
          have hne : m'.calls caller ≠ m.calls caller := by simp [hsome, hnone]
          rcases h.caller_cases hne with ⟨-, b, hmay, -⟩ | ⟨b, hb, -, rfl⟩
          · rw [hmay.1] at hsome
            cases hsome
          · rw [hsome] at hb
            cases hb
            cases hpoint : m.ring.stepProducer id p with
            | mk r progress =>
                simp only [outcome?, hpoint] at hout
                cases progress with
                | next q => cases hout
                | ended o =>
                    cases hout
                    exact ⟨caller, p, hsome, by rw [hpoint],
                      by simp only [stepActivity, hpoint]⟩

end Machine

/-- A pop that ends has an item. -/
theorem ConsumerFits.ends {l : Ledger α} {r : RingBuffer α} {id : Nat} {p : ConsumerPoint α}
    {o : Outcome α} (hp : ConsumerFits l r id p) (h : (r.stepConsumer id p).2 = .ended o) :
    ∃ a, o = .item a := by
  cases p with
  | rest position item =>
      obtain ⟨j, a, rfl, -⟩ := hp.2.2
      cases h
      exact ⟨a, rfl⟩
  | compare position =>
      simp only [stepConsumer] at h
      split at h <;> cases h
  | scan position floor next =>
      simp only [stepConsumer] at h
      split at h <;> cases h
  | _ => cases h

namespace Machine

variable {sharing : Sharing}

/-- A call that fails leaves the ring buffer as it was.  Nobody takes a role that is out of range or
held.  A call of a producer that is made alone fails exactly when it breaks the rules or fills what
is not reserved, and then changes nothing.  When it fails among other calls, it changes nothing
either, and the steps of all others lead to the machine that it leaves behind, so whatever comes
after may come without it just the same.  Pops do not fail when callers take turns. -/
theorem misuse_leaves_intact {capacity producers consumers : Nat} {r : RingBuffer α}
    {m : Machine α} {entries : List (Mark α × Word α)}
    (hnew : RingBuffer.new capacity producers consumers = .ok r)
    (h : Transcript sharing ⟨r, fun _ => none⟩ entries m) :
    (∀ id, ((∃ e, m.ring.takeProducer id = .error e) ↔
      m.ring.IsBarred ⟨.producer, id⟩) ∧
        ((∃ e, m.ring.takeConsumer id = .error e) ↔ m.ring.IsBarred ⟨.consumer, id⟩)) ∧
      (∀ id call,
        ((∃ r' o, m.ring.produce id call = some (r', o) ∧ o.IsFailure) ↔
          m.ring.Breaks id call) ∧
          ∀ r' o, m.ring.produce id call = some (r', o) → o.IsFailure → r' = m.ring) ∧
      (∀ mark id o m', Step sharing m mark m' → Utters m m' (.ends ⟨.producer, id⟩ o) →
        o.IsFailure →
        m'.ring = m.ring ∧ ∃ caller before call m₀ all others,
          entries = before ++ (.silent, .asks id call) :: all ∧
            Attempt sharing caller id call m₀ all others m ∧
              ∀ after m'', Transcript sharing m' after m'' →
                Transcript sharing ⟨r, fun _ => none⟩ (before ++ others ++ after) m'') ∧
      (sharing = .turns → ∀ mark id o m', Step sharing m mark m' →
        Utters m m' (.ends ⟨.consumer, id⟩ o) →
        ¬ o.IsFailure) := by
  refine ⟨fun id => ⟨takeProducer_fails_iff, takeConsumer_fails_iff⟩,
    fun id call => ⟨produce_fails_iff, fun r' o hcall ho => (runProducer_fails hcall ho).2⟩, ?_,
      ?_⟩
  · intro mark id o m' hstep hword ho
    obtain ⟨caller, p, hp, hended, rfl⟩ := hstep.of_ends hword
    have hcheck := isCheck_of_fails hended ho
    have hring : (m.ring.stepProducer id p).1 = m.ring := (stepProducer_of_isCheck hcheck).1
    refine ⟨hring, ?_⟩
    obtain ⟨before, m₀, call, all, others, hentries, hbefore, hattempt⟩ :=
      h.exists_attempt rfl hp
    refine ⟨caller, before, call, m₀, all, others, hentries, hattempt,
      fun after m'' hafter => ?_⟩
    rw [hring] at hafter
    exact (hattempt.erase hbefore hp hcheck).append hafter
  · rintro rfl mark id o m' hstep hword ho
    have hfits := (run_fits hnew h.run).1
    generalize hw : Word.ends (⟨.consumer, id⟩ : Role) o = word at hword
    cases hword with
    | nothing | asks => cases hw
    | @ends caller a o' hsome hnone hout =>
        cases a with
        | producing j p => cases hw
        | consuming j p =>
            cases hw
            cases hnext : (m.ring.stepConsumer id p).2 with
            | next q => simp [outcome?, hnext] at hout
            | ended o =>
                obtain ⟨b, rfl⟩ := (hfits.calls hsome).2.ends hnext
                simp only [outcome?, hnext, Option.some.injEq] at hout
                subst hout
                exact ho

/-- A producer pushes while it has reserved a position, and a consumer sets out for an item in the
meantime.  The push fails, and the pop comes as far without it. -/
theorem misuse_leaves_intact_push :
    ∃ (entries before all others : List (Mark Nat × Word Nat)) (m m' : Machine Nat)
      (call : ProducerCall Nat),
      Transcript .turns ⟨empty 2 1 1, fun _ => Option.none⟩ entries m ∧
        m.calls 0 = some (.producing 0 (.check (.push 7))) ∧
          m.calls 1 = some (.consuming 0 .claim) ∧
          Step .turns m .silent m' ∧ Utters m m'
            (.ends ⟨.producer, 0⟩ (.misuse (.pushWhileReserved 0))) ∧
            m'.ring = m.ring ∧ entries = before ++ (.silent, .asks 0 call) :: all ∧
              Transcript .turns ⟨empty 2 1 1, fun _ => Option.none⟩ (before ++ others) m' := by
  let roles : RingBuffer Nat :=
    { empty 2 1 1 with
      producers := #[{ cursor := atRest, held := true }]
      consumers := #[{ cursor := atRest, held := true }] }
  have hroles : Run .turns ⟨empty 2 1 1, fun _ => Option.none⟩ [.silent, .silent]
      ⟨roles, fun _ => Option.none⟩ :=
    (Run.none.snoc (@Step.takeProducer _ _ _ 0 _ rfl)).snoc (@Step.takeConsumer _ _ _ 0 _ rfl)
  let reserved : RingBuffer Nat :=
    { roles with producers := #[{ cursor := 0, reserved := 1, held := true }], head := 1 }
  have hreserved := @run_produce _ _ _ _ _ 0 0 (.reserve 1) reserved .done hroles
    ⟨rfl, by decide, fun _ _ _ h => by cases h⟩ (by decide)
  have hpushing := hreserved.snoc (@Step.produce _ _ _ 0 0 (.push 7)
    ⟨rfl, by decide, fun _ _ _ h => by cases h⟩)
  have hpopping := hpushing.snoc (@Step.consume _ _ _ 1 0 ⟨rfl, by decide, fun _ caller a h => by
    by_cases hcaller : caller = 0
    · subst hcaller
      cases h
      decide
    · rw [calls_setCall_ne hcaller] at h
      cases h⟩)
  let both : Machine Nat :=
    (Machine.setCall ⟨{ reserved with consumers := #[{ cursor := 0, held := true }] },
      fun _ => Option.none⟩ 0 (some (.producing 0 (.check (.push 7))))).setCall 1
        (some (.consuming 0 .claim))
  have hrun : Run .turns ⟨empty 2 1 1, fun _ => Option.none⟩ _ both :=
    (hpopping.advance rfl).advance rfl
  obtain ⟨entries, -, h⟩ := hrun.exists_transcript
  have hstep := @Step.advance _ .turns both 0 (.producing 0 (.check (.push 7))) rfl
  have hword := @Utters.ends _ both (both.setCall 0 none) 0 (.producing 0 (.check (.push 7)))
    (.misuse (.pushWhileReserved 0)) rfl rfl rfl
  obtain ⟨hring, caller, before, call, m₀, all, others, hentries, -, hafter⟩ :=
    (@misuse_leaves_intact _ .turns 2 1 1 _ both entries rfl h).2.2.1 _ 0 _ _ hstep hword trivial
  refine ⟨entries, before, all, others, both, both.setCall 0 none, call, h, rfl, rfl,
    hstep, hword, hring, hentries, ?_⟩
  have hwithout := hafter [] _ .none
  rwa [List.append_nil] at hwithout

end Machine

end Lineage.RingBuffer

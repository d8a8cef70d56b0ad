import Lineage.Proofs.RingBuffer.Delivery

/-!
# Transcripts

A mark says what a step does to the positions.  What callers say and hear is in the calls: a
producer's call begins with its arguments, and a call ends with its outcome.  `Machine.Utters` reads
this off the calls before and after a step, and `Machine.Transcript` is a run with both.  Every run
has one (`Machine.Run.exists_transcript`).
-/

namespace Lineage.RingBuffer

variable {α : Type}

/-- What is said at a step. -/
inductive Word (α : Type) where
  /-- Nothing that matters to a producer, and no outcome. -/
  | nothing
  /-- A producer asks for something. -/
  | asks (id : Nat) (call : ProducerCall α)
  /-- A call ends. -/
  | ends (role : Role) (outcome : Outcome α)
  deriving DecidableEq, Repr

/-- What is said at the next step of a call. -/
def wordOf (r : RingBuffer α) (a : Activity α) : Word α :=
  match r.outcome? a with
  | none => .nothing
  | some o => .ends a.role o

/-- A call ends exactly when nothing is left of it. -/
theorem outcome?_eq_none_iff {r : RingBuffer α} {a : Activity α} :
    r.outcome? a = none ↔ ∃ b, (r.stepActivity a).2 = some b := by
  cases a with
  | producing id p =>
      simp only [outcome?, stepActivity]
      rcases r.stepProducer id p with ⟨s, next | ended⟩ <;> simp
  | consuming id p =>
      simp only [outcome?, stepActivity]
      rcases r.stepConsumer id p with ⟨s, next | ended⟩ <;> simp

namespace Machine

/-- What is said when the calls change. -/
inductive Utters (m m' : Machine α) : Word α → Prop where
  /-- No call of a producer begins, and no call ends. -/
  | nothing : (∀ caller id p, m.calls caller = none →
    m'.calls caller ≠ some (.producing id p)) →
      (∀ caller, m.calls caller ≠ none → m'.calls caller ≠ none) → Utters m m' .nothing
  /-- A call of a producer begins. -/
  | asks {caller id : Nat} {call : ProducerCall α} : m.calls caller = none →
      m'.calls caller = some (.producing id call.start) → Utters m m' (.asks id call)
  /-- A call ends. -/
  | ends {caller : Nat} {a : Activity α} {o : Outcome α} : m.calls caller = some a →
      m'.calls caller = none → m.ring.outcome? a = some o → Utters m m' (.ends a.role o)

/-- A run, with the mark of each step and what is said at it. -/
inductive Transcript (sharing : Sharing) (start : Machine α) :
    List (Mark α × Word α) → Machine α → Prop where
  /-- No step. -/
  | none : Transcript sharing start [] start
  /-- A transcript and one more step. -/
  | snoc {m m' : Machine α} {entries : List (Mark α × Word α)}
    {mark : Mark α} {word : Word α} :
      Transcript sharing start entries m → Step sharing m mark m' → Utters m m' word →
      Transcript sharing start (entries ++ [(mark, word)]) m'

variable {sharing : Sharing} {start m m' : Machine α}

theorem Transcript.run {entries : List (Mark α × Word α)}
    (h : Transcript sharing start entries m) :
    Run sharing start (entries.map Prod.fst) m := by
  induction h with
  | none => exact .none
  | snoc _ hstep _ ih =>
      rw [List.map_append]
      exact ih.snoc hstep

/-- Something is said at every step. -/
theorem Step.exists_word {mark : Mark α} (h : Step sharing m mark m') :
    ∃ word, Utters m m' word := by
  have hsame : m'.calls = m.calls → Utters m m' .nothing := by
    intro heq
    refine .nothing (fun caller id p hnone => ?_) fun caller hsome => heq ▸ hsome
    rw [heq, hnone]
    exact fun hcall => by cases hcall
  cases h with
  | takeProducer => exact ⟨_, hsame rfl⟩
  | takeConsumer => exact ⟨_, hsame rfl⟩
  | leaveProducer => exact ⟨_, hsame rfl⟩
  | leaveConsumer => exact ⟨_, hsame rfl⟩
  | produce call hstart => exact ⟨_, .asks hstart.1 (calls_setCall_self ..)⟩
  | @consume caller id hstart =>
      refine ⟨_, .nothing (fun c id' p hnone => ?_) fun c hsome => ?_⟩ <;>
        by_cases hc : c = caller
      · subst hc
        rw [calls_setCall_self]
        exact fun hcall => by cases hcall
      · rw [calls_setCall_ne hc, hnone]
        exact fun hcall => by cases hcall
      · exact absurd (hc ▸ hstart.1) hsome
      · rwa [calls_setCall_ne hc]
  | @advance caller a ha =>
      cases hout : m.ring.outcome? a with
      | none =>
          obtain ⟨b, hb⟩ := outcome?_eq_none_iff.mp hout
          refine ⟨_, .nothing (fun c id p hnone => ?_) fun c hsome => ?_⟩ <;>
            by_cases hc : c = caller
          · subst hc
            rw [ha] at hnone
            cases hnone
          · rw [show _ = _ from calls_setCall_ne hc _, hnone]
            exact fun hcall => by cases hcall
          · subst hc
            rw [show _ = _ from calls_setCall_self .., hb]
            exact fun hcall => by cases hcall
          · rwa [show _ = _ from calls_setCall_ne hc _]
      | some o =>
          refine ⟨_, .ends ha ?_ hout⟩
          refine (calls_setCall_self ..).trans ?_
          cases hnext : (m.ring.stepActivity a).2 with
          | none => rfl
          | some b =>
              rw [outcome?_eq_none_iff.mpr ⟨b, hnext⟩] at hout
              cases hout

/-- Every run has a transcript. -/
theorem Run.exists_transcript {marks : List (Mark α)} (h : Run sharing start marks m) :
    ∃ entries, entries.map Prod.fst = marks ∧ Transcript sharing start entries m := by
  induction h with
  | none => exact ⟨[], rfl, .none⟩
  | snoc _ hstep ih =>
      obtain ⟨entries, rfl, htranscript⟩ := ih
      obtain ⟨word, hword⟩ := hstep.exists_word
      exact ⟨entries ++ [(_, word)], List.map_append .., htranscript.snoc hstep hword⟩

/-! ## What may be said at a step -/

section Utters

variable {word : Word α} {caller : Nat} {a : Activity α}

/-- Nothing is said when no call begins or ends. -/
theorem Utters.eq_nothing (h : Utters m m' word) (hcalls : m'.calls = m.calls) :
    word = .nothing := by
  cases h with
  | nothing => rfl
  | asks hnone hsome => exact absurd (hnone.symm.trans (hcalls ▸ hsome)) (by simp)
  | ends hsome hnone => exact absurd (hsome.symm.trans (hcalls ▸ hnone)) (by simp)

/-- When a call begins, a producer says what it asks for, and a consumer nothing. -/
theorem Utters.of_start (h : Utters m (m.setCall caller (some a)) word)
    (hcaller : m.calls caller = none) (hbegins : Begins a) :
    (∃ id call, a = .producing id call.start ∧ word = .asks id call) ∨
      ∃ id, a = .consuming id .readTail ∧ word = .nothing := by
  cases h with
  | nothing hquiet =>
      cases a with
      | producing id p => exact absurd (calls_setCall_self ..) (hquiet caller id p hcaller)
      | consuming id p => exact .inr ⟨id, hbegins ▸ rfl, rfl⟩
  | @asks c id call hnone hsome =>
      by_cases hc : c = caller
      · subst hc
        rw [calls_setCall_self] at hsome
        exact .inl ⟨id, call, Option.some.inj hsome, rfl⟩
      · rw [calls_setCall_ne hc, hnone] at hsome
        cases hsome
  | @ends c b o hsome hnone hout =>
      by_cases hc : c = caller
      · subst hc
        rw [hcaller] at hsome
        cases hsome
      · rw [calls_setCall_ne hc, hsome] at hnone
        cases hnone

/-- When a call goes one step on, it says how it ends, if it does. -/
theorem Utters.of_advance {r : RingBuffer α} (ha : m.calls caller = some a)
    (h : Utters m { m.setCall caller (m.ring.stepActivity a).2 with ring := r } word) :
    word = m.ring.wordOf a := by
  have hself : (m.setCall caller (m.ring.stepActivity a).2).calls caller =
      (m.ring.stepActivity a).2 :=
    calls_setCall_self ..
  have hother : ∀ c, c ≠ caller →
      (m.setCall caller (m.ring.stepActivity a).2).calls c = m.calls c :=
    fun c hc => calls_setCall_ne hc _
  unfold wordOf
  cases h with
  | nothing _ hquiet =>
      have hnext := hquiet caller (by rw [ha]; simp)
      obtain ⟨b, hb⟩ := Option.ne_none_iff_exists'.mp (hself ▸ hnext)
      rw [outcome?_eq_none_iff.mpr ⟨b, hb⟩]
  | @asks c id call hnone hsome =>
      have hc : c ≠ caller := by
        rintro rfl
        rw [ha] at hnone
        cases hnone
      have hsame := (hother c hc).symm.trans hsome
      rw [hnone] at hsame
      cases hsame
  | @ends c b o hsome hnone hout =>
      by_cases hc : c = caller
      · subst hc
        rw [ha] at hsome
        cases hsome
        rw [hout]
      · have hsame := (hother c hc).symm.trans hnone
        rw [hsome] at hsame
        cases hsame

end Utters

/-- A step changes what no call notices, starts a call of a role that is free, or takes a call one
step on.  It says nothing, what the call asks for, or how it ends. -/
theorem Fits.word_cases {l : Ledger α} {mark : Mark α} {word : Word α} (h : Fits l m)
    (hstep : Step .turns m mark m') (hword : Utters m m' word) :
    (mark = .silent ∧ word = .nothing ∧ ∃ r', Unnoticed l m.ring r' ∧
      m' = { m with ring := r' }) ∨
      (mark = .silent ∧ ∃ caller a, m.calls caller = none ∧ m.IsFree a.role ∧
        m' = m.setCall caller (some a) ∧
          ((∃ id call, a = .producing id call.start ∧ word = .asks id call) ∨
            ∃ id, a = .consuming id .readTail ∧ word = .nothing)) ∨
      ∃ caller a, m.calls caller = some a ∧ mark = m.ring.mark a ∧ word = m.ring.wordOf a ∧
        m' = { m.setCall caller (m.ring.stepActivity a).2 with
          ring := (m.ring.stepActivity a).1 } := by
  rcases h.step_cases hstep with
    ⟨rfl, r', hu, rfl⟩ | ⟨rfl, caller, a, hcaller, hfree, hbegins, -, rfl⟩ |
    ⟨caller, a, ha, rfl, rfl⟩
  · exact .inl ⟨rfl, hword.eq_nothing rfl, r', hu, rfl⟩
  · exact .inr (.inl ⟨rfl, caller, a, hcaller, hfree, rfl, hword.of_start hcaller hbegins⟩)
  · exact .inr (.inr ⟨caller, a, ha, rfl, hword.of_advance ha, rfl⟩)

end Machine

end Lineage.RingBuffer

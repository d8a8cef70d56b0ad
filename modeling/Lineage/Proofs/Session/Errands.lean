import Lineage.Proofs.RingBuffer.Lineup
import Lineage.Proofs.Session.Calls

/-!
# What the stages are about

A stage that is started begins a call where it stands, goes on with it, or goes on itself when the
call has ended (`Threads.Deed`).  Every point of a producer's call belongs to that call
(`ProducerPoint.IsOf`), so a producer at work is the stage whose item it hands over (`Manned`).
-/

namespace Lineage.RingBuffer

variable {α : Type}

/-! ## The points of a call -/

/-- Whether a point is one of a call. -/
def ProducerPoint.IsOf (call : ProducerCall α) : ProducerPoint α → Prop
  | .check c | .readHead c | .announce c _ | .claim c | .publish c _ | .compare c _
  | .readTail c _ | .scan c _ _ _
  | .keep c _ _ => call = c.call
  | .write item _ => call = .push item
  | .clearFilled count | .setReserved count => call = .reserve count
  | .checkOffset item offset | .readBase item offset => call = .fill item offset
  | .fill .. | .countFilled => ∃ item offset, call = .fill item offset
  | .readReserved | .readFilled _ | .clearReserved | .clearCount => call = .release
  | .rest => call = .release ∨ ∃ item, call = .push item

/-- Whether all that a producer has claimed is handed over when a call ends. -/
def ProducerCall.settles : ProducerCall α → Bool
  | .push _ | .release => true
  | .reserve _ | .fill .. => false

theorem ProducerCall.start_injective {call call' : ProducerCall α} (h : call.start = call'.start) :
    call = call' := by
  cases call <;> cases call' <;> cases h <;> rfl

section Points

variable {call : ProducerCall α} {p q : ProducerPoint α} {r : RingBuffer α}
  {id : Nat} {o : Outcome α}

theorem isOf_start (call : ProducerCall α) : call.start.IsOf call := by
  cases call <;> rfl

/-- A call stays the same at all its points. -/
theorem ProducerPoint.IsOf.next (h : p.IsOf call) (hnext : (r.stepProducer id p).2 = .next q) :
    q.IsOf call := by
  cases p with
  | check | scan =>
      simp only [stepProducer] at hnext
      split at hnext <;> cases hnext <;> exact h
  | checkOffset | readFilled =>
      simp only [stepProducer] at hnext
      split at hnext <;> cases hnext
      exact h
  | compare c base =>
      simp only [stepProducer] at hnext
      split at hnext <;> cases hnext
      · exact h
      · cases c <;> exact h
  | fill item position =>
      simp only [stepProducer] at hnext
      split at hnext <;> cases hnext
      exact h
  | readBase item offset =>
      cases hnext
      exact ⟨item, offset, h⟩
  | write item position =>
      cases hnext
      exact .inr ⟨item, h⟩
  | clearCount =>
      cases hnext
      exact .inl h
  | setReserved | countFilled | rest => cases hnext
  | _ =>
      cases hnext
      exact h

/-- A call ends well at four points only. -/
theorem ends_cases (hended : (r.stepProducer id p).2 = .ended o) (ho : ¬ o.IsFailure) :
    p = .rest ∨ (∃ count, p = .setReserved count) ∨
      (∃ item position, p = .fill item position) ∨ p = .countFilled := by
  cases p with
  | rest => exact .inl rfl
  | setReserved count => exact .inr (.inl ⟨count, rfl⟩)
  | fill item position => exact .inr (.inr (.inl ⟨item, position, rfl⟩))
  | countFilled => exact .inr (.inr (.inr rfl))
  | check | readFilled =>
      simp only [stepProducer] at hended
      split at hended <;> cases hended
      exact absurd trivial ho
  | checkOffset =>
      simp only [stepProducer] at hended
      split at hended <;> cases hended
      exact absurd rfl ho
  | compare | scan =>
      simp only [stepProducer] at hended
      split at hended <;> cases hended
  | _ => cases hended

/-- A call that hands everything over ends by coming to rest, and another one ends quietly. -/
theorem ProducerPoint.IsOf.ends (h : p.IsOf call) (hended : (r.stepProducer id p).2 = .ended o)
    (ho : ¬ o.IsFailure) :
    p = .rest ∧ call.settles = true ∨ (Activity.producing id p).isQuiet = true ∧
      call.settles = false := by
  rcases ends_cases hended ho with rfl | ⟨count, rfl⟩ | ⟨item, position, rfl⟩ | rfl
  · obtain rfl | ⟨item, rfl⟩ := h
    · exact .inl ⟨rfl, rfl⟩
    · exact .inl ⟨rfl, rfl⟩
  · obtain rfl := h
    exact .inr ⟨rfl, rfl⟩
  · obtain ⟨a, offset, rfl⟩ := h
    exact .inr ⟨rfl, rfl⟩
  · obtain ⟨a, offset, rfl⟩ := h
    exact .inr ⟨rfl, rfl⟩

/-- A call that ends quietly leaves its producer with a claim. -/
theorem claim_of_ends {l : Ledger α} (hp : ProducerFits l r id p)
    (hquiet : (Activity.producing id p).isQuiet = true)
    (hended : (r.stepProducer id p).2 = .ended o) (ho : ¬ o.IsFailure) :
    ∃ x, l.claim id = some x := by
  rcases ends_cases hended ho with rfl | ⟨count, rfl⟩ | ⟨item, position, rfl⟩ | rfl
  · cases hquiet
  · exact ⟨_, hp.1.claim⟩
  · exact ⟨_, hp.1.claim⟩
  · exact ⟨_, hp.claim⟩

theorem ended_of_outcome? (h : r.outcome? (.producing id p) = some o) :
    (r.stepProducer id p).2 = .ended o := by
  cases hnext : (r.stepProducer id p).2 with
  | next q =>
      simp only [outcome?, hnext] at h
      cases h
  | ended e =>
      simp only [outcome?, hnext] at h
      rw [Option.some.inj h]

end Points

/-- The step that is next is the claim of a position, or a quiet one, unless the call ends. -/
theorem claim_or_quiet {r : RingBuffer α} {a : Activity α} (h : r.outcome? a = none) :
    (∃ id c, a = .producing id (.claim c)) ∨ (∃ id, a = .consuming id .claim) ∨
      a.isQuiet = true := by
  cases a with
  | producing id p =>
      cases p with
      | claim c => exact .inl ⟨id, c, rfl⟩
      | rest => cases h
      | _ => exact .inr (.inr rfl)
  | consuming id p =>
      cases p with
      | claim => exact .inr (.inl ⟨id, rfl⟩)
      | rest => cases h
      | _ => exact .inr (.inr rfl)

/-- A consumer's call ends with an item when it comes to rest. -/
theorem exists_rest_of_ends {r : RingBuffer α} {id : Nat} {p : ConsumerPoint α} {o : Outcome α}
    (h : r.outcome? (.consuming id p) = some o) (ho : ¬ o.IsFailure) :
    ∃ k a, p = .rest k (some a) ∧ o = .item a := by
  cases p with
  | rest k item =>
      cases item with
      | some a =>
          cases h
          exact ⟨k, a, rfl, rfl⟩
      | none =>
          cases h
          exact absurd trivial ho
  | compare | scan =>
      simp only [outcome?, stepConsumer] at h
      split at h <;> rename_i heq <;> split at heq <;> cases heq <;> cases h
  | _ => cases h

end Lineage.RingBuffer

namespace Lineage.Session

open Lineage.Graph (GraphStore)
open Lineage.RingBuffer (Activity Machine Outcome ProducerCall)
open Stages (Stage)

/-! ## Who is at work -/

section Manned

variable {α : Type} {m : Machine α} {wants wants' : Stage → Option (Activity α)}
  {stage : Stage}

/-- Every call of a producer is that of a stage that wants to make it. -/
def Manned (m : Machine α) (wants : Stage → Option (Activity α)) : Prop :=
  ∀ n id p, m.calls n = some (.producing id p) →
    ∃ stage call, stage.caller = n ∧ wants stage = some (.producing id call.start) ∧
      p.IsOf call

/-- A stage begins its call. -/
theorem Manned.begin (h : Manned m wants) {a : Activity α} (hwants : wants stage = some a)
    (ha : ∀ id p, a = .producing id p → ∃ call : ProducerCall α, p = call.start) :
    Manned (m.setCall stage.caller (some a)) wants := by
  intro n id p hp
  by_cases hn : n = stage.caller
  · subst hn
    rw [Machine.calls_setCall_self] at hp
    cases hp
    obtain ⟨call, rfl⟩ := ha id p rfl
    exact ⟨stage, call, rfl, hwants, RingBuffer.isOf_start call⟩
  · rw [Machine.calls_setCall_ne hn] at hp
    exact h n id p hp

/-- A call goes on. -/
theorem Manned.advance (h : Manned m wants) {n : Nat} {a : Activity α} (ha : m.calls n = some a) :
    Manned (m.advance n a) wants := by
  intro k id p hp
  by_cases hk : k = n
  · subst hk
    obtain ⟨q, rfl, hnext⟩ :=
      Machine.stepActivity_eq_some_producing ((m.calls_advance_self k a).symm.trans hp)
    obtain ⟨stage, call, hcaller, hwants, hof⟩ := h k id q ha
    exact ⟨stage, call, hcaller, hwants, hof.next (congrArg Prod.snd hnext)⟩
  · exact h k id p ((m.calls_advance_ne hk a).symm.trans hp)

/-- A stage that makes no call goes elsewhere. -/
theorem Manned.change (h : Manned m wants) (stage : Stage)
    (hothers : ∀ other, stage ≠ other → wants' other = wants other)
    (hidle : wants stage = none ∨ m.calls stage.caller = none) : Manned m wants' := by
  intro n id p hp
  obtain ⟨other, call, rfl, hwants, hof⟩ := h n id p hp
  have hne : stage ≠ other := by
    rintro rfl
    rcases hidle with hnone | hnone
    · rw [hwants] at hnone
      cases hnone
    · rw [hp] at hnone
      cases hnone
  exact ⟨other, call, rfl, (hothers other hne).trans hwants, hof⟩

/-- The same calls are under way. -/
theorem Manned.of_calls_eq (h : Manned m wants) {m' : Machine α} (hcalls : m'.calls = m.calls) :
    Manned m' wants := by
  intro n id p hp
  rw [hcalls] at hp
  exact h n id p hp

end Manned

section Alike

variable {σ : Type} {c : Config} {s s' : Threads σ} {stage : Stage}

/-- A stage that makes no call on `jobs` goes on alone. -/
theorem Manned.jobs_alike {m : Machine Job} (h : Manned m (s.jobsCall c))
    (halike : Stages.Alike stage s.stages s'.stages)
    (hmade : stage ≠ .reader → s'.made = s.made)
    (hidle : s.jobsCall c stage = none ∨ m.calls stage.caller = none) :
    Manned m (s'.jobsCall c) :=
  h.change stage (fun _ hne => Threads.jobsCall_of_alike halike hmade hne) hidle

/-- A stage that makes no call on `parsed` goes on alone. -/
theorem Manned.parsed_alike {m : Machine Parsed} (h : Manned m (s.parsedCall c))
    (halike : Stages.Alike stage s.stages s'.stages)
    (hidle : s.parsedCall c stage = none ∨ m.calls stage.caller = none) :
    Manned m (s'.parsedCall c) :=
  h.change stage (fun _ hne => Threads.parsedCall_of_alike halike hne) hidle

end Alike

namespace Threads

variable {σ : Type} {c : Config} {s s' : Threads σ} {stage : Stage}

/-- Only the reader hands anything to the parsers. -/
theorem reader_of_manned (h : Manned s.jobs (s.jobsCall c)) {n id : Nat}
    {p : RingBuffer.ProducerPoint Job} (hp : s.jobs.calls n = some (.producing id p)) :
    n = 0 ∧ id = 0 ∧ ∃ call, (readerCalls c s.stages.reader)[s.made]? = some call ∧
      p.IsOf call := by
  obtain ⟨stage, call, rfl, hwants, hof⟩ := h n id p hp
  cases stage with
  | reader =>
      obtain ⟨asked, hasked, heq⟩ := Option.map_eq_some_iff.mp hwants
      obtain ⟨rfl, hstart⟩ := Activity.producing.inj heq
      obtain rfl := ProducerCall.start_injective hstart
      exact ⟨rfl, rfl, asked, hasked, hof⟩
  | parser i =>
      simp only [jobsCall] at hwants
      split at hwants <;> cases hwants
  | engine | keeper => cases hwants

/-- Only a parser that holds something hands it to the engine. -/
theorem parser_of_manned (h : Manned s.parsed (s.parsedCall c)) {n id : Nat}
    {p : RingBuffer.ProducerPoint Parsed} (hp : s.parsed.calls n = some (.producing id p)) :
    n = id + 1 ∧ ∃ x, s.stages.parsers[id]? = some (.holding x) ∧ p.IsOf (.push x) := by
  obtain ⟨stage, call, rfl, hwants, hof⟩ := h n id p hp
  cases stage with
  | parser i =>
      simp only [parsedCall] at hwants
      split at hwants
      · rename_i x hat
        obtain ⟨rfl, hstart⟩ := Activity.producing.inj (Option.some.inj hwants)
        obtain rfl := ProducerCall.start_injective hstart
        exact ⟨rfl, x, hat, hof⟩
      · cases hwants
  | engine =>
      simp only [parsedCall] at hwants
      split at hwants
      · split at hwants <;> cases hwants
      · cases hwants
  | reader | keeper => cases hwants

/-- Only a parser that waits takes jobs. -/
theorem parser_of_staffed {setup : List Preparation} (h : Staffed s.jobs (s.jobsCall c) setup)
    {n id : Nat} {p : RingBuffer.ConsumerPoint Job} (hp : s.jobs.calls n = some (.consuming id p)) :
    n = id + 1 ∧ s.stages.parsers[id]? = some .waiting := by
  obtain ⟨stage, call, rfl, hwants, hrole, -⟩ := h n _ hp
  cases stage with
  | reader =>
      obtain ⟨asked, -, rfl⟩ := Option.map_eq_some_iff.mp hwants
      cases hrole
  | parser i =>
      simp only [jobsCall] at hwants
      split at hwants <;> cases hwants
      cases hrole
      exact ⟨rfl, ‹_›⟩
  | engine | keeper => cases hwants

/-- Only the engine takes what the parsers have found, and only while it counts marks. -/
theorem engine_of_staffed {setup : List Preparation} (h : Staffed s.parsed (s.parsedCall c) setup)
    {n id : Nat} {p : RingBuffer.ConsumerPoint Parsed}
    (hp : s.parsed.calls n = some (.consuming id p)) :
    n = 0 ∧ id = 0 ∧ s.stages.engineAt = .taking ∧
      s.stages.engine.finished < c.parserThreads := by
  obtain ⟨stage, call, rfl, hwants, hrole, -⟩ := h n _ hp
  cases stage with
  | parser i =>
      simp only [parsedCall] at hwants
      split at hwants <;> cases hwants
      cases hrole
  | engine =>
      simp only [parsedCall] at hwants
      split at hwants
      · rename_i hat
        split at hwants <;> cases hwants
        cases hrole
        exact ⟨rfl, rfl, hat, ‹_›⟩
      · cases hwants
  | reader | keeper => cases hwants

/-! ## What a step is -/

/-- What a stage that is started can do in one step. -/
inductive Deed [GraphStore σ] (c : Config) (failure : Option String) (s : Threads σ)
    (stage : Stage) : Threads σ → Prop where
  /-- Makes a preparation. -/
  | prepare {p : Preparation} {setup : List Preparation} {s' : Threads σ} : stage = .keeper →
      s.setup = p :: setup → Threads.prepare { s with setup := setup } p = .ok s' →
        Deed c failure s stage s'
  /-- Leaves a role. -/
  | leave {post : Post} : s.jobsCall c stage = none → s.parsedCall c stage = none →
      Deed c failure s stage (s.leave post)
  /-- Begins a call on `jobs`. -/
  | beginJobs {call : Activity Job} : .begin stage ∉ s.setup →
    s.jobsCall c stage = some call →
      s.jobs.calls stage.caller = none →
      Deed c failure s stage { s with jobs := s.jobs.setCall stage.caller (some call) }
  /-- Goes on with a call on `jobs`. -/
  | workJobs {call a : Activity Job} : s.jobsCall c stage = some call →
    s.jobs.calls stage.caller = some a →
      s.jobs.ring.outcome? a = none →
      Deed c failure s stage { s with jobs := s.jobs.advance stage.caller a }
  /-- Ends a call on `jobs` and goes on. -/
  | endJobs {call a : Activity Job} {o : Outcome Job} {s' : Threads σ} :
      s.jobsCall c stage = some call →
      s.jobs.calls stage.caller = some a → s.jobs.ring.outcome? a = some o →
      goOn c failure stage o.items [] { s with jobs := s.jobs.advance stage.caller a } = some s' →
      Deed c failure s stage s'
  /-- Begins a call on `parsed`. -/
  | beginParsed {call : Activity Parsed} : .begin stage ∉ s.setup →
    s.jobsCall c stage = none →
      s.parsedCall c stage = some call → s.parsed.calls stage.caller = none →
      Deed c failure s stage { s with parsed := s.parsed.setCall stage.caller (some call) }
  /-- Goes on with a call on `parsed`. -/
  | workParsed {call a : Activity Parsed} : s.jobsCall c stage = none →
    s.parsedCall c stage = some call →
      s.parsed.calls stage.caller = some a → s.parsed.ring.outcome? a = none →
      Deed c failure s stage { s with parsed := s.parsed.advance stage.caller a }
  /-- Ends a call on `parsed` and goes on. -/
  | endParsed {call a : Activity Parsed} {o : Outcome Parsed} {s' : Threads σ} :
    s.jobsCall c stage = none →
      s.parsedCall c stage = some call → s.parsed.calls stage.caller = some a →
        s.parsed.ring.outcome? a = some o →
      goOn c failure stage [] o.items { s with parsed := s.parsed.advance stage.caller a } =
        some s' →
      Deed c failure s stage s'
  /-- Takes a step that needs no call. -/
  | alone {s' : Threads σ} : s.jobsCall c stage = none → s.parsedCall c stage = none →
      goOn c failure stage [] [] s = some s' → Deed c failure s stage s'

/-- When a call goes on or ends well, it is as its outcome says. -/
theorem afterCall_cases {α : Type} {put : Machine α → Threads σ}
    {next : List α → Threads σ → Option (Threads σ)} {m : Machine α}
    {o? : Option (Outcome α)} (h : afterCall put next (m, o?) = some (.ok s')) :
    o? = none ∧ s' = put m ∨ ∃ o, o? = some o ∧ next o.items (put m) = some s' := by
  cases o? with
  | none =>
      cases h
      exact .inl ⟨rfl, rfl⟩
  | some o =>
      refine .inr ⟨o, rfl, ?_⟩
      cases o with
      | misuse e => cases h
      | done | filled | item =>
          obtain ⟨t, ht, heq⟩ := Option.map_eq_some_iff.mp h
          cases heq
          exact ht

section Deeds

variable [GraphStore σ] {failure : Option String}

theorem work_deed (hbegun : .begin stage ∉ s.setup) (h : s.work c failure stage = some (.ok s')) :
    Deed c failure s stage s' := by
  unfold Threads.work at h
  split at h
  · rename_i call hcall
    unfold Machine.work at h
    cases hcalls : s.jobs.calls stage.caller with
    | none =>
        simp only [hcalls, afterCall] at h
        cases h
        exact .beginJobs hbegun hcall hcalls
    | some a =>
        simp only [hcalls] at h
        rcases afterCall_cases h with ⟨hout, rfl⟩ | ⟨o, hout, hgo⟩
        · exact .workJobs hcall hcalls hout
        · exact .endJobs hcall hcalls hout hgo
  · rename_i hnone
    split at h
    · rename_i call hcall
      unfold Machine.work at h
      cases hcalls : s.parsed.calls stage.caller with
      | none =>
          simp only [hcalls, afterCall] at h
          cases h
          exact .beginParsed hbegun hnone hcall hcalls
      | some a =>
          simp only [hcalls] at h
          rcases afterCall_cases h with ⟨hout, rfl⟩ | ⟨o, hout, hgo⟩
          · exact .workParsed hnone hcall hcalls hout
          · exact .endParsed hnone hcall hcalls hout hgo
    · rename_i hnone'
      split at h
      · obtain ⟨post, -, heq⟩ := Option.map_eq_some_iff.mp h
        cases heq
        exact .leave hnone hnone'
      · obtain ⟨t, hgo, heq⟩ := Option.map_eq_some_iff.mp h
        cases heq
        exact .alone hnone hnone' hgo

/-- A step is one of the deeds. -/
theorem step_deed (h : s.step c failure stage = some (.ok s')) : Deed c failure s stage s' := by
  unfold Threads.step at h
  split at h
  · rename_i p setup hsetup
    split at h
    · cases h
    · exact .prepare rfl hsetup (Option.some.inj h)
  · split at h
    · cases h
    · exact work_deed ‹_› h

end Deeds

end Threads

end Lineage.Session

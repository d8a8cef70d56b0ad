import Lineage.Proofs.RingBuffer.Orderly
import Lineage.Proofs.Session.Posts

/-!
# The calls of the stages

The reader pushes line by line, and hands on the marks of the end either one by one or in a
reservation that it fills offset by offset (`afterAll_readerCalls`).  A call of a stage is of a role
of its own (`Threads.jobsCall_owned`, `Threads.parsedCall_owned`), and it is under way only where
the stage makes it (`Staffed`), so calls of one role take turns (`Staffed.isFree`).
-/

namespace Lineage.Session

open Lineage.Graph (GraphStore)
open Lineage.RingBuffer (Activity Machine Role Stance)
open Stages (Stage)

/-! ## The calls of the reader -/

section Calls

variable {c : Config}

/-- The marks of the end may be handed on together if there is room for them. -/
theorem afterAll_finishCalls {capacity n : Nat} (hpos : 0 < n) (hle : n ≤ capacity) :
    Stance.clear.afterAll capacity (Threads.finishCalls n) = some .clear := by
  have hfills := @Stance.afterAll_fills Job capacity .finish 0 n
  rw [Nat.zero_add] at hfills
  rw [Threads.finishCalls, List.range_eq_range', Stance.afterAll, List.foldlM_cons, Stance.after,
    if_pos ⟨hpos, hle⟩]
  simp only [Option.bind_eq_bind, Option.bind_some, List.foldlM_append]
  rw [Stance.afterAll] at hfills
  simp [hfills, Stance.after]

/-- The reader may make its calls wherever it stands. -/
theorem afterAll_readerCalls (hpos : 0 < c.parserThreads) (p : ReaderPoint) :
    Stance.clear.afterAll c.ringCapacity (Threads.readerCalls c p) = some .clear := by
  unfold Threads.readerCalls
  split
  · rfl
  · split
    · exact afterAll_finishCalls hpos ‹_›
    · rfl
  · rfl

/-- The reader reserves room for all marks of the end, or nothing. -/
theorem eq_of_reserve_mem {p : ReaderPoint} {n : Nat} (h : .reserve n ∈ Threads.readerCalls c p) :
    n = c.parserThreads ∧ c.parserThreads ≤ c.ringCapacity := by
  unfold Threads.readerCalls at h
  split at h
  · simp at h
  · split at h
    · simp only [Threads.finishCalls, List.mem_cons, List.mem_append, List.mem_map] at h
      rcases h with heq | ⟨k, -, heq⟩ | heq | heq
      · cases heq
        exact ⟨rfl, ‹_›⟩
      · cases heq
      · cases heq
      · cases heq
    · simp at h
  · cases h

end Calls

/-! ## Who makes a call -/

section Staffed

variable {α : Type} {m : Machine α} {wants wants' : Stage → Option (Activity α)}
  {setup : List Preparation}
  {stage : Stage} {call : Activity α}

/-- Every call under way is that of a stage that is started and makes it where it stands. -/
def Staffed (m : Machine α) (wants : Stage → Option (Activity α)) (setup : List Preparation) :
    Prop :=
  ∀ n a, m.calls n = some a →
    ∃ stage call, stage.caller = n ∧ wants stage = some call ∧ a.role = call.role ∧
      .begin stage ∉ setup

/-- A stage begins its call or goes on with it. -/
theorem Staffed.setCall (h : Staffed m wants setup) (hwants : wants stage = some call)
    (hbegun : .begin stage ∉ setup) {next : Option (Activity α)}
    (hrole : ∀ b, next = some b → b.role = call.role) :
    Staffed (m.setCall stage.caller next) wants setup := by
  intro n a ha
  by_cases hn : n = stage.caller
  · subst hn
    rw [Machine.calls_setCall_self] at ha
    exact ⟨stage, call, rfl, hwants, hrole a ha, hbegun⟩
  · rw [Machine.calls_setCall_ne hn] at ha
    exact h n a ha

/-- A call goes on. -/
theorem Staffed.advance (h : Staffed m wants setup) {n : Nat} {a : Activity α}
    (ha : m.calls n = some a) :
    Staffed (m.advance n a) wants setup := by
  intro k b hb
  by_cases hk : k = n
  · subst hk
    obtain ⟨stage, call, hcaller, hwants, hrole, hbegun⟩ := h k a ha
    have hnext : (m.ring.stepActivity a).2 = some b := (m.calls_advance_self k a).symm.trans hb
    exact ⟨stage, call, hcaller, hwants,
      (RingBuffer.role_stepActivity hnext).trans hrole, hbegun⟩
  · exact h k b ((m.calls_advance_ne hk a).symm.trans hb)

/-- A stage that makes no call goes elsewhere. -/
theorem Staffed.change (h : Staffed m wants setup)
    (hothers : ∀ other, stage ≠ other → wants' other = wants other)
    (hidle : wants stage = none ∨ m.calls stage.caller = none) : Staffed m wants' setup := by
  intro n a ha
  obtain ⟨other, call, rfl, hwants, hrole, hbegun⟩ := h n a ha
  have hne : stage ≠ other := by
    rintro rfl
    rcases hidle with hnone | hnone
    · rw [hwants] at hnone
      cases hnone
    · rw [ha] at hnone
      cases hnone
  exact ⟨other, call, rfl, (hothers other hne).trans hwants, hrole, hbegun⟩

/-- The same calls are under way, and perhaps fewer preparations are to come. -/
theorem Staffed.of_calls_eq (h : Staffed m wants setup) {m' : Machine α}
    {setup' : List Preparation} (hcalls : m'.calls = m.calls)
    (hsetup : ∀ p ∈ setup', p ∈ setup) : Staffed m' wants setup' := by
  intro n a ha
  rw [hcalls] at ha
  obtain ⟨stage, call, hcaller, hwants, hrole, hbegun⟩ := h n a ha
  exact ⟨stage, call, hcaller, hwants, hrole, fun hmem => hbegun (hsetup _ hmem)⟩

/-- A role is free if its stage makes no call. -/
theorem Staffed.isFree (h : Staffed m wants setup) {role : Role}
    (hidle : ∀ stage call, wants stage = some call → call.role = role →
      .begin stage ∉ setup → m.calls stage.caller = none) :
    m.IsFree role := by
  intro n a ha hrole
  obtain ⟨stage, call, rfl, hwants, hsame, hbegun⟩ := h n a ha
  have hnone := hidle stage call hwants (hsame.symm.trans hrole) hbegun
  rw [ha] at hnone
  cases hnone

end Staffed

namespace Threads

variable {σ : Type} {c : Config} {s s' : Threads σ} {stage : Stage} {post : Post}

/-- A stage that makes a call on `jobs` uses a role of its own and is not at its end. -/
theorem jobsCall_owned {call : Activity Job} (hlength : s.stages.parsers.length = c.parserThreads)
    (h : s.jobsCall c stage = some call) :
    .jobs call.role ∈ stage.posts ∧ stage ∈ threadStages c.parserThreads ∧
      s.stages.hasEnded stage = false := by
  cases stage with
  | reader =>
      obtain ⟨asked, hasked, rfl⟩ := Option.map_eq_some_iff.mp h
      refine ⟨by simp [Stage.posts, Activity.role], by simp [threadStages], ?_⟩
      cases hat : s.stages.reader <;> simp [Stages.hasEnded, hat]
      simp [readerCalls, hat] at hasked
  | parser i =>
      simp only [jobsCall] at h
      split at h <;> cases h
      rename_i hat
      have hi := (List.getElem?_eq_some_iff.mp hat).1
      refine ⟨by simp [Stage.posts, Activity.role], by simp [threadStages, ← hlength, hi], ?_⟩
      simp [Stages.hasEnded, hat, ParserPoint.isEnded]
  | engine => cases h
  | keeper => cases h

/-- A stage that makes a call on `parsed` uses a role of its own, is not at its end, and makes no
call on `jobs`. -/
theorem parsedCall_owned {call : Activity Parsed}
    (hlength : s.stages.parsers.length = c.parserThreads) (h : s.parsedCall c stage = some call) :
    .parsed call.role ∈ stage.posts ∧ stage ∈ threadStages c.parserThreads ∧
      s.stages.hasEnded stage = false := by
  cases stage with
  | parser i =>
      simp only [parsedCall] at h
      split at h <;> cases h
      rename_i hat
      have hi := (List.getElem?_eq_some_iff.mp hat).1
      refine ⟨by simp [Stage.posts, Activity.role], by simp [threadStages, ← hlength, hi], ?_⟩
      simp [Stages.hasEnded, hat, ParserPoint.isEnded]
  | engine =>
      simp only [parsedCall] at h
      split at h
      · rename_i hat
        split at h <;> cases h
        exact ⟨by simp [Stage.posts, Activity.role], by simp [threadStages],
          by simp [Stages.hasEnded, EnginePoint.isOver, hat]⟩
      · cases h
  | reader => cases h
  | keeper => cases h

/-- A stage makes no call on both ring buffers. -/
theorem parsedCall_of_jobsCall {call : Activity Job} (h : s.jobsCall c stage = some call) :
    s.parsedCall c stage = none := by
  cases stage with
  | parser i =>
      simp only [jobsCall] at h
      split at h <;> cases h
      rename_i hat
      simp [parsedCall, hat]
  | engine => cases h
  | reader | keeper => rfl

/-- A stage that stands where it stood makes the same calls on `jobs`. -/
theorem jobsCall_of_alike (h : Stages.Alike stage s.stages s'.stages)
    (hmade : stage ≠ .reader → s'.made = s.made) {other : Stage} (hne : stage ≠ other) :
    s'.jobsCall c other = s.jobsCall c other := by
  cases other with
  | reader => simp only [jobsCall, h.reader hne, hmade hne]
  | parser i => simp only [jobsCall, h.parser i hne]
  | engine | keeper => rfl

/-- A stage that stands where it stood makes the same calls on `parsed`. -/
theorem parsedCall_of_alike (h : Stages.Alike stage s.stages s'.stages) {other : Stage}
    (hne : stage ≠ other) :
    s'.parsedCall c other = s.parsedCall c other := by
  cases other with
  | parser i => simp only [parsedCall, h.parser i hne]
  | engine => simp only [parsedCall, (h.engine hne).1, (h.engine hne).2]
  | reader | keeper => rfl

/-- Whether nobody can take a role. -/
def IsBarred (s : Threads σ) : Post → Prop
  | .jobs role => s.jobs.ring.IsBarred role
  | .parsed role => s.parsed.ring.IsBarred role

/-- Who is not kept from a role can take it. -/
theorem exists_take (h : ¬ s.IsBarred post) : ∃ s', s.take post = .ok s' := by
  cases post with
  | jobs role =>
      obtain ⟨r, htake⟩ := RingBuffer.exists_take h
      exact ⟨_, by rw [take, htake]; rfl⟩
  | parsed role =>
      obtain ⟨r, htake⟩ := RingBuffer.exists_take h
      exact ⟨_, by rw [take, htake]; rfl⟩

/-- Who takes a role changes one ring buffer. -/
theorem take_cases (h : s.take post = .ok s') :
    (∃ role r, post = .jobs role ∧ s.jobs.ring.take role = .ok r ∧
      s' = { s with jobs := { s.jobs with ring := r } }) ∨
    (∃ role r, post = .parsed role ∧ s.parsed.ring.take role = .ok r ∧
      s' = { s with parsed := { s.parsed with ring := r } }) := by
  cases post with
  | jobs role =>
      cases htake : s.jobs.ring.take role <;> simp only [take, htake, Except.map] at h <;> cases h
      exact .inl ⟨role, _, rfl, htake, rfl⟩
  | parsed role =>
      cases htake : s.parsed.ring.take role <;> simp only [take, htake, Except.map] at h <;> cases h
      exact .inr ⟨role, _, rfl, htake, rfl⟩

/-- Who takes a role holds it, and nobody else notices. -/
theorem isHeld_take (h : s.take post = .ok s') (other : Post) :
    s'.isHeld other = if other = post then true else s.isHeld other := by
  rcases take_cases h with ⟨role, r, rfl, htake, rfl⟩ | ⟨role, r, rfl, htake, rfl⟩
  · cases other with
    | jobs other => simpa only [isHeld, Post.jobs.injEq] using RingBuffer.isHeld_take htake other
    | parsed other => rfl
  · cases other with
    | jobs other => rfl
    | parsed other =>
        simpa only [isHeld, Post.parsed.injEq] using RingBuffer.isHeld_take htake other

/-- Who leaves a role takes it from nobody else. -/
theorem isHeld_leave_ne {other : Post} (hne : other ≠ post) :
    (s.leave post).isHeld other = s.isHeld other := by
  cases post <;> cases other
  · exact RingBuffer.isHeld_leave_ne fun heq => hne (congrArg Post.jobs heq)
  · rfl
  · rfl
  · exact RingBuffer.isHeld_leave_ne fun heq => hne (congrArg Post.parsed heq)

/-- What a stage does besides its calls changes where it stands and nothing else. -/
theorem stepAlone_cases [GraphStore σ] {failure : Option String} {taken : List Job}
    {found : List Parsed} (h : s.stepAlone c failure stage taken found = some s') :
    ∃ stages, Stages.Alike stage s.stages stages ∧ s.stages.hasEnded stage = false ∧
      s' = { s with stages := stages } := by
  obtain ⟨stages, hstep, rfl⟩ := Option.map_eq_some_iff.mp h
  have halike := Stages.step_alike hstep
  have hended := Stages.not_hasEnded_of_step hstep
  refine ⟨{ stages with jobs := [], parsed := [] },
    ⟨halike.reader, halike.parser, halike.length, halike.engine, halike.keeper⟩, ?_, rfl⟩
  rw [← hended]
  cases stage <;> rfl

end Threads

end Lineage.Session

import Lineage.Proofs.Session.Calls

/-!
# The stages get along

The threads of a session never break the rules of the ring buffers between them, whatever the order
of their steps.  `Threads.Coordinated` says why.  A call under way is the one that its stage makes
where it stands, a role is held from when it is taken to when its stage is at its end, and the
reader stands where its calls have led it.

`Threads.Coordinated.step` keeps this, and finds that no step is a misuse.
-/

namespace Lineage.Session

open Lineage.Graph (GraphStore)
open Lineage.RingBuffer (Activity Machine Misuse Outcome ProducerCall Role Stance)
open Stages (Stage)

namespace Threads

variable {σ : Type} {c : Config} {s s' : Threads σ} {stage : Stage} {post : Post}

/-! ## The invariant -/

/-- A stage has left its roles: it is at its end, or the session has given up starting it. -/
def IsGone (s : Threads σ) (stage : Stage) : Prop :=
  if .begin stage ∈ s.setup then s.stages.isClosed = true else s.stages.hasEnded stage = true

/-- The number of calls that the reader has begun for what it holds. -/
def begun (s : Threads σ) : Nat :=
  match s.jobs.calls 0 with
  | none => s.made
  | some _ => s.made + 1

/-- The stages get along.  `n` is the number of calls that the reader has begun for what it
holds. -/
structure Coordinated (c : Config) (n : Nat) (s : Threads σ) : Prop where
  /-- The calls on `jobs` mind the rules, and the reader stands where its calls have led it. -/
  jobs : ∃ stance, Machine.Orderly c.ringCapacity 1 c.parserThreads stance s.jobs ∧
    Stance.clear.afterAll c.ringCapacity ((readerCalls c s.stages.reader).take n) = some (stance 0)
  /-- Nobody reserves anything in `parsed`. -/
  parsed : Machine.Orderly c.ringCapacity c.parserThreads 1 (fun _ => .clear) s.parsed
  jobs_staffed : Staffed s.jobs (s.jobsCall c) s.setup
  parsed_staffed : Staffed s.parsed (s.parsedCall c) s.setup
  length : s.stages.parsers.length = c.parserThreads
  inOrder : InOrder s.setup
  planned : ∀ p ∈ s.setup, p ∈ preparations c.parserThreads
  /-- A role is held from when it is taken to when its stage is gone. -/
  untaken : ∀ post, .take post ∈ s.setup → s.isHeld post = false
  taken : ∀ stage ∈ threadStages c.parserThreads, ∀ post ∈ stage.posts,
    .take post ∉ s.setup →
    s.isHeld post = true ∨ s.IsGone stage
  /-- Room is reserved for all marks of the end. -/
  reserves : ∀ caller id count,
    s.jobs.calls caller = some (.producing id (.check (.reserve count))) →
    count = c.parserThreads ∧ c.parserThreads ≤ c.ringCapacity

namespace Coordinated

variable {n : Nat}

/-! ### Calls -/

/-- A change of `jobs` that leaves the roles to their holders. -/
theorem setJobs (h : Coordinated c n s) {m : Machine Job} {n' : Nat} {stance : Nat → Stance}
    (horderly : Machine.Orderly c.ringCapacity 1 c.parserThreads stance m)
    (hstance : Stance.clear.afterAll c.ringCapacity ((readerCalls c s.stages.reader).take n') =
      some (stance 0))
    (hheld : ∀ role, m.ring.isHeld role = s.jobs.ring.isHeld role)
    (hstaffed : Staffed m (s.jobsCall c) s.setup)
    (hreserves : ∀ caller id count,
      m.calls caller = some (.producing id (.check (.reserve count))) →
        count = c.parserThreads ∧ c.parserThreads ≤ c.ringCapacity) :
    Coordinated c n' { s with jobs := m } := by
  have hsame : ∀ post, ({ s with jobs := m } : Threads σ).isHeld post = s.isHeld post := by
    intro post
    cases post with
    | jobs role => exact hheld role
    | parsed role => rfl
  exact
    { jobs := ⟨stance, horderly, hstance⟩
      parsed := h.parsed
      jobs_staffed := hstaffed
      parsed_staffed := h.parsed_staffed
      length := h.length
      inOrder := h.inOrder
      planned := h.planned
      untaken := fun post htake => (hsame post).trans (h.untaken post htake)
      taken := fun stage hstage post hpost htake => by
        rw [hsame]
        exact h.taken stage hstage post hpost htake
      reserves := hreserves }

/-- A change of `parsed` that leaves the roles to their holders. -/
theorem setParsed (h : Coordinated c n s) {m : Machine Parsed}
    (horderly : Machine.Orderly c.ringCapacity c.parserThreads 1 (fun _ => .clear) m)
    (hheld : ∀ role, m.ring.isHeld role = s.parsed.ring.isHeld role)
    (hstaffed : Staffed m (s.parsedCall c) s.setup) : Coordinated c n { s with parsed := m } := by
  have hsame : ∀ post, ({ s with parsed := m } : Threads σ).isHeld post = s.isHeld post := by
    intro post
    cases post with
    | jobs role => rfl
    | parsed role => exact hheld role
  exact
    { jobs := h.jobs
      parsed := horderly
      jobs_staffed := h.jobs_staffed
      parsed_staffed := hstaffed
      length := h.length
      inOrder := h.inOrder
      planned := h.planned
      untaken := fun post htake => (hsame post).trans (h.untaken post htake)
      taken := fun stage hstage post hpost htake => by
        rw [hsame]
        exact h.taken stage hstage post hpost htake
      reserves := h.reserves }

/-- A stage that is started and not at its end holds its roles. -/
theorem isHeld (h : Coordinated c n s) (hstage : stage ∈ threadStages c.parserThreads)
    (hpost : post ∈ stage.posts) (hbegun : .begin stage ∉ s.setup)
    (hended : s.stages.hasEnded stage = false) : s.isHeld post = true := by
  have htaken : .take post ∉ s.setup := fun htake => hbegun (h.inOrder.begin_mem htake hpost)
  refine (h.taken stage hstage post hpost htaken).resolve_right fun hgone => ?_
  rw [IsGone, if_neg hbegun, hended] at hgone
  cases hgone

/-- A stage that has no call on `jobs` under way may begin one. -/
theorem mayStart_jobs (h : Coordinated c n s) {call : Activity Job}
    (hcall : s.jobsCall c stage = some call) (hbegun : .begin stage ∉ s.setup)
    (hnone : s.jobs.calls stage.caller = none) :
    Machine.MayStart .turns s.jobs stage.caller call.role := by
  obtain ⟨hpost, hstage, hended⟩ := jobsCall_owned h.length hcall
  refine ⟨hnone, h.isHeld hstage hpost hbegun hended, fun _ => h.jobs_staffed.isFree ?_⟩
  intro other call' hcall' hrole _
  have hpost' := (jobsCall_owned h.length hcall').1
  rw [hrole] at hpost'
  rwa [Stage.eq_of_mem_posts hpost' hpost]

/-- A stage that has no call on `parsed` under way may begin one. -/
theorem mayStart_parsed (h : Coordinated c n s) {call : Activity Parsed}
    (hcall : s.parsedCall c stage = some call) (hbegun : .begin stage ∉ s.setup)
    (hnone : s.parsed.calls stage.caller = none) :
    Machine.MayStart .turns s.parsed stage.caller call.role := by
  obtain ⟨hpost, hstage, hended⟩ := parsedCall_owned h.length hcall
  refine ⟨hnone, h.isHeld hstage hpost hbegun hended, fun _ => h.parsed_staffed.isFree ?_⟩
  intro other call' hcall' hrole _
  have hpost' := (parsedCall_owned h.length hcall').1
  rw [hrole] at hpost'
  rwa [Stage.eq_of_mem_posts hpost' hpost]

/-- The reader begins a call. -/
theorem begin_reader (hpos : 0 < c.parserThreads) (h : Coordinated c s.made s)
    {call : ProducerCall Job} (hcall : (readerCalls c s.stages.reader)[s.made]? = some call)
    (hbegun : .begin .reader ∉ s.setup) (hnone : s.jobs.calls 0 = none) :
    Coordinated c (s.made + 1)
      { s with jobs := s.jobs.setCall 0 (some (.producing 0 call.start)) } := by
  have hwants : s.jobsCall c .reader = some (.producing 0 call.start) := by simp [jobsCall, hcall]
  obtain ⟨stance, horderly, hstance⟩ := h.jobs
  obtain ⟨after, hafter⟩ :=
    Stance.exists_afterAll_take (afterAll_readerCalls hpos s.stages.reader) (s.made + 1)
  have hnext := (Stance.afterAll_take_succ hcall hstance).symm.trans hafter
  refine h.setJobs (horderly.produce (h.mayStart_jobs hwants hbegun hnone) hnext)
    (hafter.trans (congrArg some (if_pos rfl).symm)) (fun _ => rfl)
    (h.jobs_staffed.setCall hwants hbegun fun b hb => by cases hb; rfl)
      fun caller id count hreserve => ?_
  by_cases hc : caller = 0
  · subst hc
    rw [Machine.calls_setCall_self] at hreserve
    cases call <;> cases hreserve
    exact eq_of_reserve_mem (List.mem_of_getElem? hcall)
  · rw [Machine.calls_setCall_ne hc] at hreserve
    exact h.reserves caller id count hreserve

/-- A parser begins to take a job. -/
theorem begin_pop (h : Coordinated c n s) {i : Nat}
    (hcall : s.jobsCall c (.parser i) = some (.consuming i .readTail))
    (hbegun : .begin (.parser i) ∉ s.setup) (hnone : s.jobs.calls (i + 1) = none) :
    Coordinated c n { s with jobs := s.jobs.setCall (i + 1) (some (.consuming i .readTail)) } := by
  obtain ⟨stance, horderly, hstance⟩ := h.jobs
  refine h.setJobs (horderly.consume (h.mayStart_jobs hcall hbegun hnone)) hstance (fun _ => rfl)
    (h.jobs_staffed.setCall hcall hbegun fun b hb => by cases hb; rfl)
      fun caller id count hreserve => ?_
  by_cases hc : caller = i + 1
  · subst hc
    rw [Machine.calls_setCall_self] at hreserve
    cases hreserve
  · rw [Machine.calls_setCall_ne hc] at hreserve
    exact h.reserves caller id count hreserve

/-- A stage begins a call on `parsed`. -/
theorem begin_parsed (h : Coordinated c n s) {call : Activity Parsed}
    (hcall : s.parsedCall c stage = some call) (hbegun : .begin stage ∉ s.setup)
    (hnone : s.parsed.calls stage.caller = none) :
    Coordinated c n { s with parsed := s.parsed.setCall stage.caller (some call) } := by
  have hmay := h.mayStart_parsed hcall hbegun hnone
  refine h.setParsed ?_ (fun _ => rfl)
    (h.parsed_staffed.setCall hcall hbegun fun b hb => by cases hb; rfl)
  cases stage with
  | parser i =>
      simp only [parsedCall] at hcall
      split at hcall <;> cases hcall
      rename_i p hat
      have hafter : Stance.clear.after c.ringCapacity (.push p) = some .clear := rfl
      have hpush := h.parsed.produce hmay hafter
      simpa only [ite_self] using hpush
  | engine =>
      simp only [parsedCall] at hcall
      split at hcall
      · split at hcall <;> cases hcall
        exact h.parsed.consume hmay
      · cases hcall
  | reader => cases hcall
  | keeper => cases hcall

/-- A call on `jobs` goes one step on. -/
theorem advance_jobs (h : Coordinated c n s) {caller : Nat} {a : Activity Job}
    (ha : s.jobs.calls caller = some a) :
    Coordinated c n { s with jobs := s.jobs.advance caller a } := by
  obtain ⟨stance, horderly, hstance⟩ := h.jobs
  refine h.setJobs (horderly.advance ha) hstance (fun role => RingBuffer.isHeld_stepActivity a role)
    (h.jobs_staffed.advance ha) fun k id count hreserve => ?_
  by_cases hk : k = caller
  · subst hk
    exact absurd ((s.jobs.calls_advance_self k a).symm.trans hreserve)
      RingBuffer.stepActivity_ne_check
  · exact h.reserves k id count ((s.jobs.calls_advance_ne hk a).symm.trans hreserve)

/-- A call on `parsed` goes one step on. -/
theorem advance_parsed (h : Coordinated c n s) {caller : Nat} {a : Activity Parsed}
    (ha : s.parsed.calls caller = some a) :
    Coordinated c n { s with parsed := s.parsed.advance caller a } :=
  h.setParsed (h.parsed.advance ha) (fun role => RingBuffer.isHeld_stepActivity a role)
    (h.parsed_staffed.advance ha)

/-! ### Stages besides their calls -/

/-- A stage that makes no call goes elsewhere. -/
theorem setStages (h : Coordinated c n s) {stages : Stages σ} {made n' : Nat}
    (halike : Stages.Alike stage s.stages stages) (hmade : stage ≠ .reader → made = s.made)
    (hended : s.stages.hasEnded stage = false) (hkeeper : stage = .keeper → s.setup = [])
    (hjobs : s.jobsCall c stage = none ∨ s.jobs.calls stage.caller = none)
    (hparsed : s.parsedCall c stage = none ∨ s.parsed.calls stage.caller = none)
    (hreader : ∃ stance, Machine.Orderly c.ringCapacity 1 c.parserThreads stance s.jobs ∧
      Stance.clear.afterAll c.ringCapacity ((readerCalls c stages.reader).take n') =
        some (stance 0)) :
    Coordinated c n' { s with stages := stages, made := made } where
  jobs := hreader
  parsed := h.parsed
  jobs_staffed := h.jobs_staffed.change (fun _ hne => jobsCall_of_alike halike hmade hne) hjobs
  parsed_staffed := h.parsed_staffed.change (fun _ hne => parsedCall_of_alike halike hne) hparsed
  length := halike.length.trans h.length
  inOrder := h.inOrder
  planned := h.planned
  untaken := h.untaken
  taken other hother post hpost htake := by
    refine (h.taken other hother post hpost htake).imp id fun hgone => ?_
    unfold IsGone at hgone ⊢
    split at hgone
    · rename_i hpending
      have hne : stage ≠ .keeper := fun heq => by simp [hkeeper heq] at hpending
      rw [if_pos hpending, ← hgone]
      exact halike.hasEnded hne
    · rename_i hbegun
      have hne : stage ≠ other := by
        rintro rfl
        rw [hended] at hgone
        cases hgone
      rw [if_neg hbegun, ← hgone]
      exact halike.hasEnded hne
  reserves := h.reserves

section GoOn

variable [GraphStore σ] {failure : Option String} {taken : List Job} {found : List Parsed}

/-- The reader goes on. -/
theorem goOn_reader (hpos : 0 < c.parserThreads) (h : Coordinated c (s.made + 1) s)
    (hnone : s.jobs.calls 0 = none) (hgo : s.goOn c failure .reader taken found = some s') :
    Coordinated c s'.begun s' := by
  obtain ⟨stance, horderly, hstance⟩ := h.jobs
  simp only [goOn] at hgo
  split at hgo
  · rename_i hmore
    cases hgo
    have hended : s.stages.hasEnded .reader = false := by
      cases hat : s.stages.reader <;> simp [Stages.hasEnded, hat]
      simp [readerCalls, hat] at hmore
    rw [begun, show ({ s with made := s.made + 1 } : Threads σ).jobs.calls 0 = none from hnone]
    exact h.setStages (Stages.alike_refl .reader s.stages)
      (fun hne => absurd rfl hne) hended (by simp)
      (.inr hnone) (.inl rfl) ⟨stance, horderly, hstance⟩
  · rename_i hlast
    obtain ⟨s₁, halone, rfl⟩ := Option.map_eq_some_iff.mp hgo
    obtain ⟨stages, halike, hended, rfl⟩ := stepAlone_cases halone
    rw [begun, show ({ s with stages := stages, made := 0 } : Threads σ).jobs.calls 0 =
      none from hnone]
    -- All calls are made, and the reader has reserved nothing.
    rw [List.take_of_length_le (Nat.le_of_not_lt hlast)] at hstance
    have hclear := hstance.symm.trans (afterAll_readerCalls hpos _)
    exact h.setStages halike (fun hne => absurd rfl hne) hended (by simp) (.inr hnone) (.inl rfl)
      ⟨stance, horderly, hclear.symm⟩

/-- Another stage goes on. -/
theorem goOn_other (h : Coordinated c n s) (hne : stage ≠ .reader)
    (hkeeper : stage = .keeper → s.setup = [])
    (hjobs : s.jobsCall c stage = none ∨ s.jobs.calls stage.caller = none)
    (hparsed : s.parsedCall c stage = none ∨ s.parsed.calls stage.caller = none)
    (hgo : s.goOn c failure stage taken found = some s') :
    Coordinated c n s' ∧ s'.begun = s.begun := by
  have halone : s.stepAlone c failure stage taken found = some s' := by
    cases stage with
    | reader => exact absurd rfl hne
    | parser | engine | keeper => exact hgo
  obtain ⟨stages, halike, hended, rfl⟩ := stepAlone_cases halone
  obtain ⟨stance, horderly, hstance⟩ := h.jobs
  rw [← halike.reader hne] at hstance
  exact ⟨h.setStages halike (fun _ => rfl) hended hkeeper hjobs hparsed
    ⟨stance, horderly, hstance⟩, rfl⟩

end GoOn

/-! ### Roles -/

/-- Roles are taken or left, and nothing else happens. -/
theorem setRings (h : Coordinated c n s) (hstages : s'.stages = s.stages) (hmade : s'.made = s.made)
    (hjobs : s'.jobs.calls = s.jobs.calls) (hparsed : s'.parsed.calls = s.parsed.calls)
    (hsetup : s'.setup = s.setup ∨ ∃ p, s.setup = p :: s'.setup)
    (hjobs_orderly : ∀ stance, Machine.Orderly c.ringCapacity 1 c.parserThreads stance s.jobs →
      Machine.Orderly c.ringCapacity 1 c.parserThreads stance s'.jobs)
    (hparsed_orderly : Machine.Orderly c.ringCapacity c.parserThreads 1 (fun _ => .clear) s'.parsed)
    (huntaken : ∀ post, .take post ∈ s'.setup → s'.isHeld post = false)
    (htaken : ∀ stage ∈ threadStages c.parserThreads, ∀ post ∈ stage.posts, .take post ∉
      s'.setup → s'.isHeld post = true ∨ s'.IsGone stage) :
    Coordinated c n s' := by
  have hjobsCall : s'.jobsCall c = s.jobsCall c := by
    funext stage
    cases stage <;> simp only [jobsCall, hstages, hmade]
  have hparsedCall : s'.parsedCall c = s.parsedCall c := by
    funext stage
    cases stage <;> simp only [parsedCall, hstages]
  have hsub : ∀ p ∈ s'.setup, p ∈ s.setup := by
    rcases hsetup with heq | ⟨p, heq⟩
    · rw [heq]
      exact fun _ hp => hp
    · rw [heq]
      exact fun _ hp => List.mem_cons_of_mem _ hp
  obtain ⟨stance, horderly, hstance⟩ := h.jobs
  exact
    { jobs := ⟨stance, hjobs_orderly stance horderly, by rw [hstages]; exact hstance⟩
      parsed := hparsed_orderly
      jobs_staffed := hjobsCall ▸ h.jobs_staffed.of_calls_eq hjobs hsub
      parsed_staffed := hparsedCall ▸ h.parsed_staffed.of_calls_eq hparsed hsub
      length := by rw [hstages]; exact h.length
      inOrder := by
        rcases hsetup with heq | ⟨p, heq⟩
        · rw [heq]
          exact h.inOrder
        · have hinOrder := h.inOrder
          rw [heq] at hinOrder
          exact hinOrder.2.2
      planned := fun p hp => h.planned p (hsub p hp)
      untaken := huntaken
      taken := htaken
      reserves := fun k id count hreserve => h.reserves k id count (by rwa [hjobs] at hreserve) }

/-- A role is free if its stage is gone. -/
theorem isFree_jobs (h : Coordinated c n s) {role : Role} (hpost : .jobs role ∈ stage.posts)
    (hgone : s.IsGone stage) : s.jobs.IsFree role := by
  refine h.jobs_staffed.isFree fun other call hcall hrole hbegun => ?_
  obtain ⟨hpost', -, hended⟩ := jobsCall_owned h.length hcall
  rw [hrole] at hpost'
  obtain rfl := Stage.eq_of_mem_posts hpost' hpost
  rw [IsGone, if_neg hbegun, hended] at hgone
  cases hgone

/-- A role is free if its stage is gone. -/
theorem isFree_parsed (h : Coordinated c n s) {role : Role} (hpost : .parsed role ∈ stage.posts)
    (hgone : s.IsGone stage) : s.parsed.IsFree role := by
  refine h.parsed_staffed.isFree fun other call hcall hrole hbegun => ?_
  obtain ⟨hpost', -, hended⟩ := parsedCall_owned h.length hcall
  rw [hrole] at hpost'
  obtain rfl := Stage.eq_of_mem_posts hpost' hpost
  rw [IsGone, if_neg hbegun, hended] at hgone
  cases hgone

/-- A stage that is gone leaves a role. -/
theorem leave (h : Coordinated c n s) (hpost : post ∈ stage.posts) (hheld : s.isHeld post = true)
    (hgone : s.IsGone stage) : Coordinated c n (s.leave post) := by
  have hsame : ∀ other, other ≠ post → (s.leave post).isHeld other = s.isHeld other :=
    fun other hne => isHeld_leave_ne hne
  have huntaken : ∀ other, .take other ∈ s.setup → (s.leave post).isHeld other = false := by
    intro other htake
    have hfree := h.untaken other htake
    rw [hsame other (fun heq => by rw [heq, hheld] at hfree; cases hfree), hfree]
  have htaken : ∀ other ∈ threadStages c.parserThreads, ∀ post' ∈ other.posts,
      .take post' ∉ s.setup →
      (s.leave post).isHeld post' = true ∨ s.IsGone other := by
    intro other hother post' hpost' htake
    by_cases heq : post' = post
    · subst heq
      rw [Stage.eq_of_mem_posts hpost' hpost]
      exact .inr hgone
    · rw [hsame post' heq]
      exact h.taken other hother post' hpost' htake
  cases post with
  | jobs role =>
      exact h.setRings rfl rfl rfl rfl (.inl rfl)
        (fun _ ho => ho.leave hheld (h.isFree_jobs hpost hgone))
        h.parsed huntaken htaken
  | parsed role =>
      exact h.setRings rfl rfl rfl rfl (.inl rfl) (fun _ ho => ho)
        (h.parsed.leave hheld (h.isFree_parsed hpost hgone)) huntaken htaken

/-- A stage that is gone leaves some roles. -/
theorem leaveAll (h : Coordinated c n s) (hgone : s.IsGone stage) {posts : List Post}
    (hnodup : posts.Nodup)
    (hposts : ∀ post ∈ posts, post ∈ stage.posts ∧ s.isHeld post = true) :
    Coordinated c n (posts.foldl Threads.leave s) ∧
      (posts.foldl Threads.leave s).begun = s.begun := by
  induction posts generalizing s with
  | nil => exact ⟨h, rfl⟩
  | cons post posts ih =>
      obtain ⟨hnew, hnodup⟩ := List.nodup_cons.mp hnodup
      rw [List.forall_mem_cons] at hposts
      have hleft := h.leave hposts.1.1 hposts.1.2 hgone
      have hsame : (s.leave post).IsGone stage ∧ (s.leave post).begun = s.begun := by
        cases post <;> exact ⟨hgone, rfl⟩
      rw [List.foldl_cons, ← hsame.2]
      refine ih hleft hsame.1 hnodup fun other hother => ⟨(hposts.2 other hother).1, ?_⟩
      have hne : other ≠ post := fun heq => hnew (heq ▸ hother)
      rw [isHeld_leave_ne hne]
      exact (hposts.2 other hother).2

/-- When a stage is started, its roles are held. -/
theorem isHeld_pending (h : Coordinated c n s) {setup : List Preparation}
    (hsetup : s.setup = .begin stage :: setup) (hopen : s.stages.isClosed = false)
    (hpost : post ∈ stage.posts) : s.isHeld post = true := by
  have hpending : .begin stage ∈ s.setup := by simp [hsetup]
  have hstage := begin_mem_preparations_iff.mp (h.planned _ hpending)
  have htaken : .take post ∉ s.setup := by
    have hinOrder := h.inOrder
    rw [hsetup] at hinOrder ⊢
    intro htake
    exact hinOrder.1 (hinOrder.2.2.begin_mem (by simpa using htake) hpost)
  refine (h.taken stage hstage post hpost htaken).resolve_right fun hgone => ?_
  rw [IsGone, if_pos hpending, hopen] at hgone
  cases hgone

/-- The session cannot start a stage. -/
theorem giveUp (h : Coordinated c n s) {setup : List Preparation}
    (hsetup : s.setup = .begin stage :: setup) (hopen : s.stages.isClosed = false) :
    Coordinated c n (s.giveUp stage) ∧ (s.giveUp stage).begun = s.begun := by
  have hpending : .begin stage ∈ s.setup := by simp [hsetup]
  have hclosed : Coordinated c n { s with stages := { s.stages with keeper := .ended none } } :=
    { jobs := h.jobs
      parsed := h.parsed
      jobs_staffed := h.jobs_staffed
      parsed_staffed := h.parsed_staffed
      length := h.length
      inOrder := h.inOrder
      planned := h.planned
      untaken := h.untaken
      taken := fun other hother post hpost htake => by
        refine (h.taken other hother post hpost htake).imp id fun hgone => ?_
        unfold IsGone at hgone ⊢
        split at hgone
        · rename_i hmem
          rw [if_pos hmem]
          rfl
        · rename_i hmem
          rw [if_neg hmem]
          cases other <;> first | exact hgone | rfl
      reserves := h.reserves }
  have hgone : ({ s with stages := { s.stages with keeper := .ended none } } : Threads σ).IsGone
      stage := by
    rw [IsGone, if_pos hpending]
    rfl
  refine hclosed.leaveAll hgone (List.nodup_reverse.mpr stage.nodup_posts) fun post hpost => ?_
  have hpost' := List.mem_reverse.mp hpost
  exact ⟨hpost', h.isHeld_pending hsetup hopen hpost'⟩

/-- Everybody who is gone is gone when a preparation is made. -/
theorem IsGone.tail {p : Preparation} (hsetup : s.setup = p :: s'.setup)
    (hstages : s'.stages = s.stages) (hopen : s.stages.isClosed = false) (h : s.IsGone stage) :
    s'.IsGone stage := by
  unfold IsGone at h ⊢
  rw [hsetup] at h
  split at h
  · rw [hopen] at h
    cases h
  · rename_i hmem
    rw [if_neg fun hlater => hmem (List.mem_cons_of_mem _ hlater), hstages]
    exact h

/-- Nobody is kept from a role that is still to be taken. -/
theorem not_isBarred (h : Coordinated c n s) (htake : .take post ∈ s.setup) :
    ¬ s.IsBarred post := by
  have hfree := h.untaken post htake
  obtain ⟨stage, hstage, hpost⟩ := take_mem_preparations_iff.mp (h.planned _ htake)
  obtain ⟨stance, horderly, -⟩ := h.jobs
  obtain ⟨hproducers, hconsumers⟩ := horderly.sizes
  obtain ⟨hproducers', hconsumers'⟩ := h.parsed.sizes
  have hout : ∀ {size id k : Nat}, size = k → id < k → ¬ size ≤ id := by
    intro size id k hsize hid hle
    omega
  cases stage with
  | reader =>
      obtain rfl : post = .jobs ⟨.producer, 0⟩ := by simpa [Stage.posts] using hpost
      exact not_or.mpr ⟨hout hproducers Nat.one_pos, Bool.not_eq_true _ ▸ hfree⟩
  | engine =>
      obtain rfl : post = .parsed ⟨.consumer, 0⟩ := by simpa [Stage.posts] using hpost
      exact not_or.mpr ⟨hout hconsumers' Nat.one_pos, Bool.not_eq_true _ ▸ hfree⟩
  | keeper => cases hpost
  | parser i =>
      have hi : i < c.parserThreads := by simpa [threadStages] using hstage
      have hcases : post = .jobs ⟨.consumer, i⟩ ∨ post = .parsed ⟨.producer, i⟩ := by
        simpa [Stage.posts] using hpost
      rcases hcases with rfl | rfl
      · exact not_or.mpr ⟨hout hconsumers hi, Bool.not_eq_true _ ▸ hfree⟩
      · exact not_or.mpr ⟨hout hproducers' hi, Bool.not_eq_true _ ▸ hfree⟩

/-- A preparation is made, and at most the role that it is for is taken. -/
theorem prepared (h : Coordinated c n s) {p : Preparation} (hsetup : s.setup = p :: s'.setup)
    (hopen : s.stages.isClosed = false) (hstages : s'.stages = s.stages) (hmade : s'.made = s.made)
    (hjobs : s'.jobs.calls = s.jobs.calls) (hparsed : s'.parsed.calls = s.parsed.calls)
    (hjobs_orderly : ∀ stance, Machine.Orderly c.ringCapacity 1 c.parserThreads stance s.jobs →
      Machine.Orderly c.ringCapacity 1 c.parserThreads stance s'.jobs)
    (hparsed_orderly : Machine.Orderly c.ringCapacity c.parserThreads 1 (fun _ => .clear) s'.parsed)
    (hsame : ∀ post, p ≠ .take post → s'.isHeld post = s.isHeld post)
    (hnew : ∀ post, p = .take post → s'.isHeld post = true) : Coordinated c n s' := by
  have hinOrder := h.inOrder
  rw [hsetup] at hinOrder
  refine h.setRings hstages hmade hjobs hparsed (.inr ⟨p, hsetup⟩) hjobs_orderly hparsed_orderly
    (fun post htake => ?_) fun stage hstage post hpost htake => ?_
  · have hne : p ≠ .take post := by
      rintro rfl
      exact hinOrder.1 htake
    rw [hsame post hne]
    exact h.untaken post (hsetup ▸ List.mem_cons_of_mem p htake)
  · by_cases hp : p = .take post
    · exact .inl (hnew post hp)
    · have hbefore : .take post ∉ s.setup := by
        rw [hsetup, List.mem_cons, not_or]
        exact ⟨Ne.symm hp, htake⟩
      rw [hsame post hp]
      exact (h.taken stage hstage post hpost hbefore).imp id (IsGone.tail hsetup hstages hopen)

/-- A preparation goes well. -/
theorem prepare (h : Coordinated c n s) {p : Preparation} {setup : List Preparation}
    (hsetup : s.setup = p :: setup) (hopen : s.stages.isClosed = false) :
    ∃ s', Threads.prepare { s with setup := setup } p = .ok s' ∧ Coordinated c n s' ∧
      s'.begun = s.begun := by
  cases p with
  | begin stage =>
      exact ⟨_, rfl, h.prepared hsetup hopen rfl rfl rfl rfl
        (fun _ ho => ho) h.parsed (fun _ _ => rfl)
        (fun _ heq => by cases heq), rfl⟩
  | take post =>
      have hopenPost : ¬ ({ s with setup := setup } : Threads σ).IsBarred post := by
        have hnot := h.not_isBarred (hsetup ▸ List.mem_cons_self : .take post ∈ s.setup)
        cases post <;> exact hnot
      obtain ⟨s', htake⟩ := exists_take hopenPost
      have hsame : ∀ other, Preparation.take post ≠ .take other →
          s'.isHeld other = s.isHeld other := by
        intro other hne
        rw [isHeld_take htake other, if_neg fun heq => hne (congrArg _ heq.symm)]
        cases other <;> rfl
      have hnew : ∀ other, Preparation.take post = .take other → s'.isHeld other = true := by
        intro other heq
        cases heq
        rw [isHeld_take htake post, if_pos rfl]
      refine ⟨s', htake, ?_⟩
      rcases take_cases htake with ⟨role, r, rfl, hring, rfl⟩ | ⟨role, r, rfl, hring, rfl⟩
      · exact ⟨h.prepared hsetup hopen rfl rfl rfl rfl
          (fun _ ho => ho.take hring) h.parsed hsame hnew, rfl⟩
      · exact ⟨h.prepared hsetup hopen rfl rfl rfl rfl
          (fun _ ho => ho) (h.parsed.take hring) hsame hnew, rfl⟩

/-! ### All steps -/

/-- What comes of a call that ends well. -/
theorem afterCall_of_not_fails {α : Type} {m : Machine α} {o : Outcome α}
    {put : Machine α → Threads σ} {goOn : List α → Threads σ → Option (Threads σ)}
    (ho : ¬ o.IsFailure) :
    afterCall put goOn (m, some o) = (goOn o.items (put m)).map .ok := by
  cases o with
  | misuse e => exact absurd trivial ho
  | _ => rfl

theorem begun_of_none (hnone : s.jobs.calls 0 = none) : s.begun = s.made := by rw [begun, hnone]

theorem begun_of_some {a : Activity Job} (ha : s.jobs.calls 0 = some a) : s.begun = s.made + 1 := by
  rw [begun, ha]

/-- A call that goes on is still under way. -/
theorem begun_advance {caller : Nat} {a : Activity Job} (ha : s.jobs.calls caller = some a)
    (hnext : caller = 0 → ∃ b, (s.jobs.ring.stepActivity a).2 = some b) :
    ({ s with jobs := s.jobs.advance caller a } : Threads σ).begun = s.begun := by
  by_cases hcaller : caller = 0
  · subst hcaller
    obtain ⟨b, hb⟩ := hnext rfl
    have hunder : ({ s with jobs := s.jobs.advance 0 a } : Threads σ).jobs.calls 0 = some b :=
      (s.jobs.calls_advance_self 0 a).trans hb
    rw [begun_of_some ha, begun_of_some hunder]
  · unfold begun
    rw [show ({ s with jobs := s.jobs.advance caller a } : Threads σ).jobs.calls 0 =
      s.jobs.calls 0 from
      s.jobs.calls_advance_ne (Ne.symm hcaller) a]

/-- A reader that makes no call has begun all of them. -/
theorem all_begun (h : Coordinated c s.begun s) (hnone : s.jobsCall c .reader = none) :
    s.jobs.calls 0 = none ∧ Coordinated c (s.made + 1) s := by
  have hcalls : s.jobs.calls 0 = none := by
    cases hcalls : s.jobs.calls 0 with
    | none => rfl
    | some a =>
        obtain ⟨stage, call, hcaller, hcall, -⟩ := h.jobs_staffed 0 a hcalls
        cases stage with
        | reader =>
            rw [hnone] at hcall
            cases hcall
        | parser i => cases hcaller
        | engine | keeper => cases hcall
  have hlast : (readerCalls c s.stages.reader).length ≤ s.made := by
    simpa [jobsCall] using hnone
  obtain ⟨stance, horderly, hstance⟩ := h.jobs
  rw [begun_of_none hcalls, List.take_of_length_le hlast] at hstance
  rw [← List.take_of_length_le (Nat.le_succ_of_le hlast)] at hstance
  exact ⟨hcalls, { h with jobs := ⟨stance, horderly, hstance⟩ }⟩

/-- No call on `jobs` fails. -/
theorem not_fails_jobs (h : Coordinated c n s) {caller : Nat} {a : Activity Job} {o : Outcome Job}
    (ha : s.jobs.calls caller = some a) (ho : s.jobs.ring.outcome? a = some o) :
    ¬ o.IsFailure := by
  obtain ⟨stance, horderly, -⟩ := h.jobs
  exact horderly.not_fails ha ho

section Steps

variable [GraphStore σ] {failure : Option String} {result : Except Misuse (Threads σ)}

/-- A stage takes a step of its call on `jobs`. -/
theorem work_jobs (hpos : 0 < c.parserThreads) (h : Coordinated c s.begun s) {call : Activity Job}
    (hcall : s.jobsCall c stage = some call) (hbegun : .begin stage ∉ s.setup)
    (hwork : s.work c failure stage = some result) :
    ∃ s', result = .ok s' ∧ Coordinated c s'.begun s' := by
  simp only [work, hcall, Machine.work] at hwork
  cases hcalls : s.jobs.calls stage.caller with
  | none =>
      simp only [hcalls, afterCall, Option.some.injEq] at hwork
      refine ⟨_, hwork.symm, ?_⟩
      cases stage with
      | reader =>
          obtain ⟨asked, hasked, rfl⟩ := Option.map_eq_some_iff.mp hcall
          rw [begun_of_none hcalls] at h
          rw [begun_of_some (Machine.calls_setCall_self ..)]
          exact h.begin_reader hpos hasked hbegun hcalls
      | parser i =>
          obtain rfl : call = .consuming i .readTail := by
            simp only [jobsCall] at hcall
            split at hcall <;> cases hcall
            rfl
          exact h.begin_pop hcall hbegun hcalls
      | engine => cases hcall
      | keeper => cases hcall
  | some a =>
      have hadvanced := h.advance_jobs hcalls
      cases hout : s.jobs.ring.outcome? a with
      | none =>
          simp only [hcalls, hout, afterCall, Option.some.injEq] at hwork
          refine ⟨_, hwork.symm, ?_⟩
          rw [begun_advance hcalls fun _ => RingBuffer.outcome?_eq_none_iff.mp hout]
          exact hadvanced
      | some o =>
          rw [hcalls] at hwork
          simp only [hout] at hwork
          rw [afterCall_of_not_fails (h.not_fails_jobs hcalls hout)] at hwork
          obtain ⟨s', hgo, rfl⟩ := Option.map_eq_some_iff.mp hwork
          have hnone := s.jobs.calls_advance_of_ends hout stage.caller
          refine ⟨s', rfl, ?_⟩
          by_cases hreader : stage = .reader
          · subst hreader
            rw [begun_of_some hcalls] at hadvanced
            exact hadvanced.goOn_reader hpos hnone hgo
          · have hcaller : stage.caller ≠ 0 := by
              cases stage with
              | parser i => exact Nat.succ_ne_zero i
              | reader => exact absurd rfl hreader
              | engine | keeper => cases hcall
            obtain ⟨hnext, hsame⟩ :=
              hadvanced.goOn_other hreader (fun heq => by subst heq; cases hcall)
                (.inr hnone) (.inl (parsedCall_of_jobsCall hcall)) hgo
            rwa [hsame, begun_advance hcalls fun heq => absurd heq hcaller]

/-- A stage takes a step of its call on `parsed`. -/
theorem work_parsed (h : Coordinated c s.begun s) {call : Activity Parsed}
    (hnone : s.jobsCall c stage = none) (hcall : s.parsedCall c stage = some call)
    (hbegun : .begin stage ∉ s.setup) (hwork : s.work c failure stage = some result) :
    ∃ s', result = .ok s' ∧ Coordinated c s'.begun s' := by
  simp only [work, hnone, hcall, Machine.work] at hwork
  cases hcalls : s.parsed.calls stage.caller with
  | none =>
      simp only [hcalls, afterCall, Option.some.injEq] at hwork
      exact ⟨_, hwork.symm, h.begin_parsed hcall hbegun hcalls⟩
  | some a =>
      have hadvanced := h.advance_parsed hcalls
      cases hout : s.parsed.ring.outcome? a with
      | none =>
          simp only [hcalls, hout, afterCall, Option.some.injEq] at hwork
          exact ⟨_, hwork.symm, hadvanced⟩
      | some o =>
          rw [hcalls] at hwork
          simp only [hout] at hwork
          rw [afterCall_of_not_fails (h.parsed.not_fails hcalls hout)] at hwork
          obtain ⟨s', hgo, rfl⟩ := Option.map_eq_some_iff.mp hwork
          obtain ⟨hnext, hsame⟩ := hadvanced.goOn_other (fun heq => by subst heq; cases hcall)
            (fun heq => by subst heq; cases hcall) (.inl hnone)
            (.inr (s.parsed.calls_advance_of_ends hout stage.caller)) hgo
          refine ⟨s', rfl, ?_⟩
          rw [hsame]
          exact hnext

/-- A stage that is started takes a step. -/
theorem work (hpos : 0 < c.parserThreads) (h : Coordinated c s.begun s)
    (hbegun : .begin stage ∉ s.setup) (hkeeper : stage = .keeper → s.setup = [])
    (hwork : s.work c failure stage = some result) :
    ∃ s', result = .ok s' ∧ Coordinated c s'.begun s' := by
  cases hjobs : s.jobsCall c stage with
  | some call => exact h.work_jobs hpos hjobs hbegun hwork
  | none =>
      cases hparsed : s.parsedCall c stage with
      | some call => exact h.work_parsed hjobs hparsed hbegun hwork
      | none =>
          simp only [Threads.work, hjobs, hparsed] at hwork
          split at hwork
          · rename_i hended
            obtain ⟨post, hfound, rfl⟩ := Option.map_eq_some_iff.mp hwork
            have hpost := List.mem_reverse.mp (List.mem_of_find?_eq_some hfound)
            have hgone : s.IsGone stage := by rwa [IsGone, if_neg hbegun]
            refine ⟨_, rfl, ?_⟩
            rw [show (s.leave post).begun = s.begun by cases post <;> rfl]
            exact h.leave hpost (List.find?_some hfound) hgone
          · obtain ⟨s', hgo, rfl⟩ := Option.map_eq_some_iff.mp hwork
            refine ⟨s', rfl, ?_⟩
            by_cases hreader : stage = .reader
            · subst hreader
              exact (h.all_begun hjobs).2.goOn_reader hpos (h.all_begun hjobs).1 hgo
            · obtain ⟨hnext, hsame⟩ :=
                h.goOn_other hreader hkeeper (.inl hjobs) (.inl hparsed) hgo
              rwa [hsame]

/-- No step is a misuse, and the stages get along after it. -/
theorem step (hpos : 0 < c.parserThreads) (h : Coordinated c s.begun s)
    (hstep : s.step c failure stage = some result) :
    ∃ s', result = .ok s' ∧ Coordinated c s'.begun s' := by
  unfold Threads.step at hstep
  split at hstep
  · rename_i p setup hsetup
    split at hstep
    · cases hstep
    · rename_i hopen
      obtain ⟨s', hprepare, hnext, hsame⟩ := h.prepare hsetup (Bool.not_eq_true _ ▸ hopen)
      rw [hprepare] at hstep
      cases hstep
      exact ⟨s', rfl, by rwa [hsame]⟩
  · rename_i hnot
    split at hstep
    · cases hstep
    · rename_i hbegun
      refine h.work hpos hbegun (fun hkeeper => ?_) hstep
      cases hsetup : s.setup with
      | nil => rfl
      | cons p setup => exact absurd hsetup (hnot p setup hkeeper)

end Steps

end Coordinated

end Threads

end Lineage.Session

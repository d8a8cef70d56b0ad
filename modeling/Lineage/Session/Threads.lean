import Lineage.RingBuffer.Machine
import Lineage.Session.Stages

/-!
# The stages as threads

The queues of `Stages` are lists, and a stage hands something on in one step.  In a running session
there is a ring buffer in the place of each of the first two queues, `jobs` between the reader and
the parsers and `parsed` between the parsers and the engine.  The stages are threads that make calls
on them, and the calls go step by step, so those of several threads overlap.

A session first makes the ring buffers.  Then it takes the roles of a stage and starts its thread,
one stage after the other (`preparations`), and does the keeper's work when all of them run.  A
thread that has come to its end leaves its roles.  If a thread cannot be started, the session gives
up, and those that run go on without it (`Threads.giveUp`).

Besides its calls, a stage takes the steps of `Stages.step`.  It finds in its queues just what its
call has brought, and what it puts there it has handed on already.
-/

namespace Lineage.Session

open Lineage.Audit (Source)
open Lineage.Graph (GraphStore)
open Lineage.RingBuffer (Activity Machine Misuse Outcome ProducerCall Role SetupError)
open Stages (Stage)

/-! ## Roles and preparations -/

/-- A role of one of the ring buffers. -/
inductive Post where
  /-- Between the reader and the parsers. -/
  | jobs (role : Role)
  /-- Between the parsers and the engine. -/
  | parsed (role : Role)
  deriving DecidableEq, Repr

/-- What a session does before it takes batches. -/
inductive Preparation where
  /-- Takes a role. -/
  | take (post : Post)
  /-- Starts the thread of a stage. -/
  | begin (stage : Stage)
  deriving DecidableEq, Repr

namespace Stages

/-- The roles of a stage, in the order in which they are taken. -/
def Stage.posts : Stage → List Post
  | .reader => [.jobs ⟨.producer, 0⟩]
  | .parser i => [.jobs ⟨.consumer, i⟩, .parsed ⟨.producer, i⟩]
  | .engine => [.parsed ⟨.consumer, 0⟩]
  | .keeper => []

/-- The number under which a stage makes its calls. -/
def Stage.caller : Stage → Nat
  | .parser i => i + 1
  | _ => 0

/-- The preparations for one stage. -/
def Stage.preparations (stage : Stage) : List Preparation :=
  stage.posts.map .take ++ [.begin stage]

/-- Whether a stage is at its end. -/
def hasEnded {σ : Type} (s : Stages σ) : Stage → Bool
  | .reader =>
    match s.reader with
    | .ended _ => true
    | _ => false
  | .parser i => s.parsers[i]?.all ParserPoint.isEnded
  | .engine => s.engineAt.isOver
  | .keeper => s.isClosed

end Stages

/-- The stages of a session with `n` parsers that are threads of their own, in the order in which
they are started. -/
def threadStages (n : Nat) : List Stage := .engine :: ((List.range n).map .parser ++ [.reader])

/-- The preparations of a session with `n` parsers. -/
def preparations (n : Nat) : List Preparation := (threadStages n).flatMap Stage.preparations

/-! ## The threads -/

/-- The stages with a ring buffer in the place of each of the first two queues. -/
structure Threads (σ : Type) where
  /-- Where the stages stand.  Nothing is in the first two queues. -/
  stages : Stages σ
  /-- The ring buffer between the reader and the parsers, and the calls on it. -/
  jobs : Machine Job
  /-- The ring buffer between the parsers and the engine, and the calls on it. -/
  parsed : Machine Parsed
  /-- The preparations to come. -/
  setup : List Preparation
  /-- The number of calls with which the reader has handed on a part of what it holds. -/
  made : Nat := 0

namespace Threads

variable {σ : Type}

/-- The session before its preparations, if the ring buffers can be made. -/
def start (c : Config) (t : Tracker) (store : σ) (source : Source) :
    Except SetupError (Threads σ) := do
  let jobs ← RingBuffer.new c.ringCapacity 1 c.parserThreads
  let parsed ← RingBuffer.new c.ringCapacity c.parserThreads 1
  return {
    stages := .start c t store source
    jobs := ⟨jobs, fun _ => none⟩
    parsed := ⟨parsed, fun _ => none⟩
    setup := preparations c.parserThreads }

/-- Whether someone holds a role. -/
def isHeld (s : Threads σ) : Post → Bool
  | .jobs role => s.jobs.ring.isHeld role
  | .parsed role => s.parsed.ring.isHeld role

/-- Takes a role. -/
def take (s : Threads σ) : Post → Except Misuse (Threads σ)
  | .jobs role => (s.jobs.ring.take role).map fun r => { s with jobs := { s.jobs with ring := r } }
  | .parsed role =>
      (s.parsed.ring.take role).map fun r => { s with parsed := { s.parsed with ring := r } }

/-- Leaves a role. -/
def leave (s : Threads σ) : Post → Threads σ
  | .jobs role => { s with jobs := { s.jobs with ring := s.jobs.ring.leave role } }
  | .parsed role => { s with parsed := { s.parsed with ring := s.parsed.ring.leave role } }

/-! ## Calls -/

/-- The calls that hand on `n` marks of the end together. -/
def finishCalls (n : Nat) : List (ProducerCall Job) :=
  .reserve n :: ((List.range n).map (.fill .finish) ++ [.release])

/-- The calls with which the reader hands on what it holds. -/
def readerCalls (c : Config) : ReaderPoint → List (ProducerCall Job)
  | .handing text _ line seq => [.push (.line seq line text)]
  | .closing (_ + 1) _ =>
    if c.parserThreads ≤ c.ringCapacity then finishCalls c.parserThreads else [.push .finish]
  | _ => []

/-- The call that a stage makes next between the reader and the parsers. -/
def jobsCall (c : Config) (s : Threads σ) : Stage → Option (Activity Job)
  | .reader => (readerCalls c s.stages.reader)[s.made]?.map fun call => .producing 0 call.start
  | .parser i =>
    match s.stages.parsers[i]? with
    | some .waiting => some (.consuming i .readTail)
    | _ => none
  | .engine | .keeper => none

/-- The call that a stage makes next between the parsers and the engine. -/
def parsedCall (c : Config) (s : Threads σ) : Stage → Option (Activity Parsed)
  | .parser i =>
    match s.stages.parsers[i]? with
    | some (.holding p) => some (.producing i (ProducerCall.push p).start)
    | _ => none
  | .engine =>
    match s.stages.engineAt with
    | .taking =>
        if s.stages.engine.finished < c.parserThreads then some (.consuming 0 .readTail) else none
    | _ => none
  | .reader | .keeper => none

/-- What comes of a step of a call.  The call goes on, or it breaks the rules, or it ends and its
stage goes on with what it has brought. -/
def afterCall {α : Type} (put : Machine α → Threads σ)
    (goOn : List α → Threads σ → Option (Threads σ)) :
    Machine α × Option (Outcome α) → Option (Except Misuse (Threads σ))
  | (m, none) => some (.ok (put m))
  | (_, some (.misuse e)) => some (.error e)
  | (m, some o) => (goOn o.items (put m)).map .ok

/-! ## Steps -/

section Steps

variable [GraphStore σ] (c : Config) (failure : Option String)

/-- A step of a stage besides its calls, with what these have brought. -/
def stepAlone (stage : Stage) (jobs : List Job) (parsed : List Parsed) (s : Threads σ) :
    Option (Threads σ) :=
  (Stages.step c failure stage { s.stages with jobs := jobs, parsed := parsed }).map fun stages =>
    { s with stages := { stages with jobs := [], parsed := [] } }

/-- A stage goes on when a call of it has ended, or when it makes none.  The reader may have another
call to make. -/
def goOn (stage : Stage) (jobs : List Job) (parsed : List Parsed) (s : Threads σ) :
    Option (Threads σ) :=
  match stage with
  | .reader =>
    if s.made + 1 < (readerCalls c s.stages.reader).length then some { s with made := s.made + 1 }
    else (s.stepAlone c failure .reader jobs parsed).map fun s => { s with made := 0 }
  | stage => s.stepAlone c failure stage jobs parsed

/-- One step of a stage that is started. -/
def work (stage : Stage) (s : Threads σ) : Option (Except Misuse (Threads σ)) :=
  match s.jobsCall c stage with
  | some call =>
    afterCall (fun m => { s with jobs := m }) (fun items => goOn c failure stage items [])
      (s.jobs.work stage.caller call)
  | none =>
    match s.parsedCall c stage with
    | some call =>
      afterCall (fun m => { s with parsed := m }) (fun items => goOn c failure stage [] items)
        (s.parsed.work stage.caller call)
    | none =>
      if s.stages.hasEnded stage then
        (stage.posts.reverse.find? s.isHeld).map fun post => .ok (s.leave post)
      else (s.goOn c failure stage [] []).map .ok

/-- Makes one preparation. -/
def prepare (s : Threads σ) : Preparation → Except Misuse (Threads σ)
  | .take post => s.take post
  | .begin _ => .ok s

/-- One step of a stage, if it can take one.  Those of the keeper are the preparations at first. -/
def step (stage : Stage) (s : Threads σ) : Option (Except Misuse (Threads σ)) :=
  match stage, s.setup with
  | .keeper, p :: setup =>
      if s.stages.isClosed then none else some (prepare { s with setup := setup } p)
  | stage, setup => if .begin stage ∈ setup then none else s.work c failure stage

/-- The session cannot start a thread.  It leaves the roles that it has taken for it, and takes no
batch. -/
def giveUp (s : Threads σ) (stage : Stage) : Threads σ :=
  stage.posts.reverse.foldl leave { s with stages := { s.stages with keeper := .ended none } }

/-- Whether some steps lead from one state to another. -/
inductive Steps : Threads σ → Threads σ → Prop where
  /-- No step. -/
  | refl (s : Threads σ) : Steps s s
  /-- Some steps and one of a stage. -/
  | snoc {s s' s'' : Threads σ} (stage : Stage) :
      Steps s s' → s'.step c failure stage = some (.ok s'') → Steps s s''
  /-- Some steps, and a thread that cannot be started. -/
  | giveUp {s s' : Threads σ} {stage : Stage} {setup : List Preparation} :
      Steps s s' → s'.setup = .begin stage :: setup → s'.stages.isClosed = false →
        Steps s (s'.giveUp stage)

/-- Lets the stages take steps as a schedule says.  A stage that cannot take one is passed over. -/
def follow (s : Threads σ) : List Stage → Except Misuse (Threads σ)
  | [] => .ok s
  | stage :: schedule =>
    match s.step c failure stage with
    | some (.ok s) => follow s schedule
    | some (.error e) => .error e
    | none => follow s schedule

end Steps

section Schedules

variable [GraphStore σ] {c : Config} {failure : Option String}

/-- A step before some steps. -/
theorem Steps.head {s s' s'' : Threads σ} {stage : Stage}
    (h : s.step c failure stage = some (.ok s')) (hs : Steps c failure s' s'') :
    Steps c failure s s'' := by
  induction hs with
  | refl => exact .snoc stage (.refl s) h
  | snoc stage' _ h' ih => exact .snoc stage' ih h'
  | giveUp _ hsetup hopen ih => exact .giveUp ih hsetup hopen

/-- What a schedule does, the stages can do. -/
theorem steps_follow {s s' : Threads σ} {schedule : List Stage}
    (h : s.follow c failure schedule = .ok s') :
    Steps c failure s s' := by
  induction schedule generalizing s with
  | nil =>
      cases h
      exact .refl _
  | cons stage schedule ih =>
      unfold follow at h
      split at h
      · exact .head ‹_› (ih h)
      · cases h
      · exact ih h

end Schedules

end Threads

end Lineage.Session

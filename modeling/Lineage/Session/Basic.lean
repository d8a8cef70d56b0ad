import Lineage.Session.Ingest

/-!
# Sessions

A session goes from *idle* to *running* when it starts, and to *stopped* when it stops.  An ingest
that fails leaves it *failed*, since its tracker may know nodes that the store does not have.  It
has to be started again before it can ingest.  Each start begins with a fresh tracker and fresh
totals, over the same store.

A call that the phase does not admit changes nothing, and neither does a start that fails, apart
from what the store does to itself while it prepares.

The settings of a session may ask for more memory than there can be.  An ingest then panics before
it begins, or its engine falls, and the ingest fails or waits for ever (`Session.tryIngest`).
-/

namespace Lineage

open Lineage.Audit (Source)
open Lineage.Graph (GraphStore StoreError)
open Lineage.Session (Config ConfigError IngestError Panic Report)

namespace Session

/-- The phases of a session. -/
inductive Phase where
  /-- It was never started. -/
  | idle
  /-- It can ingest. -/
  | running
  /-- An ingest failed. -/
  | failed
  /-- It was stopped. -/
  | stopped
  deriving DecidableEq, Repr

/-- The name of a phase. -/
def Phase.name : Phase → String
  | .idle => "idle"
  | .running => "running"
  | .failed => "failed"
  | .stopped => "stopped"

/-- The calls of a session. -/
inductive Call where
  | start
  | ingest
  | stop
  deriving DecidableEq, Repr

/-- The phases that admit a call. -/
def Call.phases : Call → List Phase
  | .start => [.idle, .failed, .stopped]
  | .ingest => [.running]
  | .stop => [.running, .failed]

/-- Some names as a choice. -/
def choice : List String → String
  | [] => ""
  | [a] => a
  | [a, b] => a ++ " or " ++ b
  | a :: names => a ++ ", " ++ choice names

/-- The words for the phases that admit a call. -/
def Call.expectation (call : Call) : String := choice (call.phases.map Phase.name)

/-- Why a call fails. -/
inductive SessionError where
  /-- A setting cannot be honoured. -/
  | config (e : ConfigError)
  /-- The store could not prepare, or an ingest failed. -/
  | ingest (e : IngestError)
  /-- The phase does not admit the call. -/
  | wrongPhase (phase : Phase) (call : Call)

/-- The message of an error. -/
def SessionError.message : SessionError → String
  | .config e => "invalid pipeline configuration: " ++ e.message
  | .ingest (.store e) => e.message
  | .ingest (.journal e) => e.message
  | .ingest (.panicked stage) => stage ++ " thread panicked"
  | .wrongPhase phase call => "pipeline is " ++ phase.name ++ "; expected " ++ call.expectation

/-- What comes of a call that is tried. -/
inductive Attempt (α : Type) where
  /-- It has an answer. -/
  | answers (a : α)
  /-- It panics and leaves all as it was. -/
  | panics (p : Panic)
  /-- It waits for ever. -/
  | waits

/-- The totals of a session. -/
structure Totals where
  /-- The number of ingests that succeeded. -/
  ingests : Nat := 0
  /-- The number of lines. -/
  lines : Nat := 0
  /-- The number of events. -/
  events : Nat := 0
  /-- The number of lines that were skipped. -/
  invalid : Nat := 0
  /-- The number of operations that the store accepted. -/
  ops : Nat := 0
  /-- The number of batches that the store accepted. -/
  batches : Nat := 0
  /-- The number of nodes added so far. -/
  nodesCreated : Nat := 0
  /-- The number of live processes. -/
  live : Nat := 0
  deriving DecidableEq, Repr

/-- The totals with one more report. -/
def Totals.add (t : Totals) (r : Report) : Totals where
  ingests := t.ingests + 1
  lines := t.lines + r.lines
  events := t.events + r.events
  invalid := t.invalid + r.invalid
  ops := t.ops + r.ops
  batches := t.batches + r.batches
  nodesCreated := r.tracker.nodesCreated
  live := r.tracker.live

end Session

open Session

/-- A session over a store with states of type `σ`. -/
structure Session (σ : Type) where
  /-- Its settings. -/
  config : Config
  /-- Its store. -/
  store : σ
  /-- Its phase. -/
  phase : Phase := .idle
  /-- Its tracker. -/
  tracker : Tracker := {}
  /-- Its totals. -/
  totals : Totals := {}

namespace Session

variable {σ : Type} [GraphStore σ]

omit [GraphStore σ] in
/-- Whether it can ingest. -/
def isRunning (s : Session σ) : Bool := s.phase = .running

omit [GraphStore σ] in
/-- Whether its phase admits a call. -/
def admits (s : Session σ) (call : Call) : Bool := call.phases.contains s.phase

/-- Checks the settings, prepares the store and begins. -/
def start (s : Session σ) : Session σ × Except SessionError Unit :=
  if !s.admits .start then (s, .error (.wrongPhase s.phase .start))
  else
    match s.config.validate with
    | .error e => (s, .error (.config e))
    | .ok () =>
      match GraphStore.prepare s.store with
      | (.error e, store) => ({ s with store := store }, .error (.ingest (.store e)))
      | (.ok (), store) =>
        ({ config := s.config, store := store, phase := .running }, .ok ())

/-- Ingests a journal, if that comes to an end.  The records it leaves are returned besides.  The
tracker is lost with an engine that falls. -/
def ingest (s : Session σ) (source : Source) :
    Session σ × Except SessionError Report × List LogRecord :=
  if !s.admits .ingest then (s, .error (.wrongPhase s.phase .ingest), [])
  else if !s.config.batchFits then
    ({ s with tracker := {}, phase := .failed }, .error (.ingest (.panicked "engine")), [])
  else
    let i := Session.ingestJournal s.config s.tracker s.store source
    match i.result with
    | .error e =>
      ({ s with store := i.store, tracker := i.tracker, phase := .failed }, .error (.ingest e),
        i.logs)
    | .ok report =>
      ({ s with store := i.store, tracker := i.tracker, totals := s.totals.add report },
        .ok report, i.logs)

/-- Tries to ingest a journal, whatever memory the settings ask for. -/
def tryIngest (s : Session σ) (source : Source) :
    Attempt (Session σ × Except SessionError Report × List LogRecord) :=
  if !s.admits .ingest then .answers (s.ingest source)
  else if !s.config.ringsFit then .panics .capacityOverflow
  else if s.config.completes source then .answers (s.ingest source)
  else .waits

omit [GraphStore σ] in
/-- Ends, and returns the totals of the ingests that succeeded. -/
def stop (s : Session σ) : Session σ × Except SessionError Totals :=
  if !s.admits .stop then (s, .error (.wrongPhase s.phase .stop))
  else ({ s with phase := .stopped }, .ok s.totals)

end Session

end Lineage

import Lineage.Session.Ingest

/-!
# The stages of an ingest

A running session spreads an ingest over stages that work side by side.  The *reader* numbers the
lines that are not blank and hands them to the *parsers*.  The *engine* takes what the parsers
found, puts it back into order, turns it into operations and cuts those into batches.  The *keeper*
offers the batches to the store.

Between the stages are queues with a limit.  A stage that finds the queue behind it full or the one
in front of it empty waits.  When a stage has to end the ingest it raises the *flag*.  The reader
then reads no further line, and the engine drops what still comes.  At the end the reader hands one
mark to every parser, and the engine counts the marks that the parsers pass on.

The engine begins with asking for room for a batch.  If there may be none it falls, and what is
handed on stays where it is.  The ring buffers between the stages are asked for before any stage
begins (`Stages.launch`).

`Stages.step` is one step of one stage, if it can take one.  The steps may come in any order
(`Stages.Steps`), such as that of a schedule (`Stages.follow`), and what comes out is
`Stages.result`.
-/

namespace Lineage.Session

open Lineage.Audit (Event LineError Source isBlankLine readLine)
open Lineage.Graph (GraphStore Op StoreError)
open Lineage.Json (Bytes)

/-! ## What is handed on -/

/-- What the reader hands to a parser. -/
inductive Job where
  /-- A line, with its place among those that are not blank and its number. -/
  | line (seq number : Nat) (text : Bytes)
  /-- The mark of the end. -/
  | finish

/-- What a parser hands to the engine. -/
inductive Parsed where
  /-- The events or the error of a line. -/
  | line (seq : Nat) (result : Except LineError (List Event))
  /-- The mark of the end. -/
  | finished

/-- What a parser makes of a job. -/
def Job.parse : Job → Parsed
  | .line seq number text => .line seq (readLine number text)
  | .finish => .finished

/-- The number of batches that may wait for the store. -/
def batchQueueLimit : Nat := 8

/-! ## Where the stages stand -/

/-- Where the reader stands. -/
inductive ReaderPoint where
  /-- Before it looks at the flag and reads a line. -/
  | reading (lines : List Bytes) (line seq : Nat)
  /-- Before it hands on a line. -/
  | handing (text : Bytes) (lines : List Bytes) (line seq : Nat)
  /-- Before it raises the flag because the journal cannot be read any further. -/
  | failing (e : LineError)
  /-- Before it hands on the marks that are left. -/
  | closing (left : Nat) (result : Except LineError Nat)
  /-- At its end, with the number of lines it has read. -/
  | ended (result : Except LineError Nat)

/-- Where a parser stands. -/
inductive ParserPoint where
  /-- Before it takes a job. -/
  | waiting
  /-- Before it hands on what it has found. -/
  | holding (p : Parsed)
  /-- At its end. -/
  | ended

/-- Where a parser stands after it has handed something on. -/
def Parsed.after : Parsed → ParserPoint
  | .line .. => .waiting
  | .finished => .ended

/-- Whether a parser is at its end. -/
def ParserPoint.isEnded : ParserPoint → Bool
  | .ended => true
  | _ => false

/-- Where the engine stands. -/
inductive EnginePoint where
  /-- Before it takes what a parser has found, or ends. -/
  | taking
  /-- Before it looks at the flag with the next line in order. -/
  | checking (result : Except LineError (List Event))
  /-- Before it raises the flag because a line ends the ingest. -/
  | raising
  /-- Before it cuts a batch, if one is full. -/
  | cutting
  /-- Before it hands on a full batch. -/
  | sending (batch : List Op)
  /-- Before it raises the flag because nobody takes batches any more. -/
  | cutOff
  /-- Before it looks at the flag with operations left over. -/
  | lastCheck
  /-- Before it hands on the last batch. -/
  | sendingLast (batch : List Op)
  /-- Before it raises the flag at its end. -/
  | lastCutOff
  /-- At its end. -/
  | ended
  /-- Fallen before it took anything, since there may be no room for a batch. -/
  | fallen

/-- Whether the engine takes and sends nothing any more. -/
def EnginePoint.isOver : EnginePoint → Bool
  | .ended | .fallen => true
  | _ => false

/-- Where the keeper stands. -/
inductive KeeperPoint where
  /-- Before it takes a batch, or ends. -/
  | taking
  /-- Before it offers a batch. -/
  | offering (batch : List Op)
  /-- Before it raises the flag because the store refused a batch. -/
  | raising (e : StoreError)
  /-- Before it stops to take batches. -/
  | closing (e : StoreError)
  /-- At its end, with the refusal of the store. -/
  | ended (refusal : Option StoreError)

/-- What the engine knows. -/
structure Engine where
  /-- The tracker. -/
  tracker : Tracker
  /-- What came out of its order and waits. -/
  early : List (Nat × Except LineError (List Event)) := []
  /-- The place of the next line in order. -/
  nextSeq : Nat := 0
  /-- The number of marks. -/
  finished : Nat := 0
  /-- The operations that are in no batch. -/
  ops : List Op := []
  /-- The number of events. -/
  events : Nat := 0
  /-- The errors of the lines that were skipped. -/
  skipped : List LineError := []
  /-- The error of the line that ended the ingest. -/
  fatal : Option LineError := none

/-- The stages and the queues between them. -/
structure Stages (σ : Type) where
  /-- The reader. -/
  reader : ReaderPoint
  /-- The jobs on their way. -/
  jobs : List Job := []
  /-- The parsers. -/
  parsers : List ParserPoint
  /-- What the parsers found and the engine did not take. -/
  parsed : List Parsed := []
  /-- What the engine knows. -/
  engine : Engine
  /-- Where the engine stands. -/
  engineAt : EnginePoint := .taking
  /-- The batches on their way. -/
  batches : List (List Op) := []
  /-- The keeper. -/
  keeper : KeeperPoint := .taking
  /-- The store. -/
  store : σ
  /-- The batches that were offered. -/
  offered : List (List Op) := []
  /-- The batches that were accepted. -/
  accepted : List (List Op) := []
  /-- The flag. -/
  flag : Bool := false

namespace Stages

variable {σ : Type}

/-- The stages at the start of an ingest. -/
def start (c : Config) (t : Tracker) (s : σ) (source : Source) : Stages σ where
  reader := .reading source.lines 0 0
  parsers := List.replicate c.parserThreads .waiting
  engine := { tracker := t }
  engineAt := if c.batchFits then .taking else .fallen
  store := s

/-- The stages at the start of an ingest, if the ring buffers between them may be asked for. -/
def launch (c : Config) (t : Tracker) (s : σ) (source : Source) : Except Panic (Stages σ) :=
  if c.ringsFit then .ok (start c t s source) else .error .capacityOverflow

/-! ## The reader -/

/-- One step of the reader. -/
def stepReader (c : Config) (failure : Option String) (s : Stages σ) : Option (Stages σ) :=
  match s.reader with
  | .reading lines line seq =>
    if s.flag then some { s with reader := .closing c.parserThreads (.ok line) }
    else
      match lines with
      | [] =>
        match failure with
        | none => some { s with reader := .closing c.parserThreads (.ok line) }
        | some reason => some { s with reader := .failing ⟨line + 1, .source reason⟩ }
      | text :: lines =>
        if isBlankLine text then some { s with reader := .reading lines (line + 1) seq }
        else some { s with reader := .handing text lines (line + 1) seq }
  | .handing text lines line seq =>
    if s.jobs.length < c.ringCapacity then
      some { s with
        jobs := s.jobs ++ [.line seq line text], reader := .reading lines line (seq + 1) }
    else none
  | .failing e => some { s with flag := true, reader := .closing c.parserThreads (.error e) }
  | .closing 0 result => some { s with reader := .ended result }
  | .closing (left + 1) result =>
    if c.parserThreads ≤ c.ringCapacity then
      if s.jobs.length + (left + 1) ≤ c.ringCapacity then
        some { s with
          jobs := s.jobs ++ List.replicate (left + 1) .finish, reader := .closing 0 result }
      else none
    else if s.jobs.length < c.ringCapacity then
      some { s with jobs := s.jobs ++ [.finish], reader := .closing left result }
    else none
  | .ended _ => none

/-! ## The parsers -/

/-- One step of a parser. -/
def stepParser (c : Config) (i : Nat) (s : Stages σ) : Option (Stages σ) :=
  match s.parsers[i]? with
  | some .waiting =>
    match s.jobs with
    | [] => none
    | job :: jobs => some { s with jobs := jobs, parsers := s.parsers.set i (.holding job.parse) }
  | some (.holding p) =>
    if s.parsed.length < c.ringCapacity then
      some { s with parsed := s.parsed ++ [p], parsers := s.parsers.set i p.after }
    else none
  | some .ended | none => none

/-! ## The engine -/

/-- Goes on with the next line in order if it is there. -/
def proceed (s : Stages σ) : Stages σ :=
  match s.engine.early.lookup s.engine.nextSeq with
  | none => { s with engineAt := .taking }
  | some result =>
    { s with
      engine := { s.engine with
        early := s.engine.early.filter fun p => p.1 != s.engine.nextSeq
        nextSeq := s.engine.nextSeq + 1 }
      engineAt := .checking result }

/-- Uses the next line in order. -/
def use (c : Config) (s : Stages σ) : Except LineError (List Event) → Stages σ
  | .ok events =>
    let (tracker, ops) := s.engine.tracker.run events
    { s with
      engine := { s.engine with
        tracker := tracker
        ops := s.engine.ops ++ ops
        events := s.engine.events + events.length }
      engineAt := .cutting }
  | .error e =>
    if c.skipInvalid then
      { s with
        engine := { s.engine with skipped := s.engine.skipped ++ [e] }
        engineAt := .cutting }
    else { s with engine := { s.engine with fatal := some e }, engineAt := .raising }

/-- Whether the keeper takes batches no more. -/
def isClosed (s : Stages σ) : Bool :=
  match s.keeper with
  | .ended _ => true
  | _ => false

/-- Hands a batch on, if there is room for it or nobody takes it any more. -/
def send (s : Stages σ) (batch : List Op) (sent refused : EnginePoint) : Option (Stages σ) :=
  if s.isClosed then some { s with engineAt := refused }
  else if s.batches.length < batchQueueLimit then
    some { s with batches := s.batches ++ [batch], engineAt := sent }
  else none

/-- One step of the engine. -/
def stepEngine (c : Config) (s : Stages σ) : Option (Stages σ) :=
  match s.engineAt with
  | .taking =>
    if s.engine.finished < c.parserThreads then
      match s.parsed with
      | [] => none
      | .line seq result :: parsed =>
        some (proceed { s with
          parsed := parsed
          engine := { s.engine with early := (seq, result) :: s.engine.early } })
      | .finished :: parsed =>
        some { s with
          parsed := parsed, engine := { s.engine with finished := s.engine.finished + 1 } }
    else if s.engine.ops.isEmpty then some { s with engineAt := .ended }
    else some { s with engineAt := .lastCheck }
  | .checking result => some (if s.flag then s.proceed else s.use c result)
  | .raising => some ({ s with flag := true } : Stages σ).proceed
  | .cutting =>
    if c.batchSize ≤ s.engine.ops.length then
      some { s with
        engine := { s.engine with ops := s.engine.ops.drop c.batchSize }
        engineAt := .sending (s.engine.ops.take c.batchSize) }
    else some s.proceed
  | .sending batch => s.send batch .cutting .cutOff
  | .cutOff => some ({ s with flag := true } : Stages σ).proceed
  | .lastCheck =>
    if s.flag then some { s with engineAt := .ended }
    else
      some { s with
        engine := { s.engine with ops := [] }, engineAt := .sendingLast s.engine.ops }
  | .sendingLast batch => s.send batch .ended .lastCutOff
  | .lastCutOff => some { s with flag := true, engineAt := .ended }
  | .ended | .fallen => none

/-! ## The keeper -/

/-- One step of the keeper. -/
def stepKeeper [GraphStore σ] (s : Stages σ) : Option (Stages σ) :=
  match s.keeper with
  | .taking =>
    match s.batches with
    | batch :: batches => some { s with batches := batches, keeper := .offering batch }
    | [] => if s.engineAt.isOver then some { s with keeper := .ended none } else none
  | .offering batch =>
    match GraphStore.execute s.store batch with
    | (.ok (), store) =>
      some { s with
        store := store
        offered := s.offered ++ [batch]
        accepted := s.accepted ++ [batch]
        keeper := .taking }
    | (.error e, store) =>
      some { s with store := store, offered := s.offered ++ [batch], keeper := .raising e }
  | .raising e => some { s with flag := true, keeper := .closing e }
  | .closing e => some { s with batches := [], keeper := .ended (some e) }
  | .ended _ => none

/-! ## All together -/

/-- The stages by name. -/
inductive Stage where
  | reader
  | parser (i : Nat)
  | engine
  | keeper
  deriving DecidableEq, Repr

/-- One step of a stage, if it can take one. -/
def step [GraphStore σ] (c : Config) (failure : Option String) (stage : Stage)
    (s : Stages σ) : Option (Stages σ) :=
  match stage with
  | .reader => s.stepReader c failure
  | .parser i => s.stepParser c i
  | .engine => s.stepEngine c
  | .keeper => s.stepKeeper

/-- Whether some steps lead from one state to another. -/
inductive Steps [GraphStore σ] (c : Config) (failure : Option String) :
    Stages σ → Stages σ → Prop where
  /-- No step. -/
  | refl (s : Stages σ) : Steps c failure s s
  /-- Some steps and one more. -/
  | snoc {s s' s'' : Stages σ} (stage : Stage) :
      Steps c failure s s' → s'.step c failure stage = some s'' → Steps c failure s s''

/-- What the ingest comes to when all stages are at their ends.  An engine that has fallen is found
out before anything else. -/
def result (s : Stages σ) : Option (Except IngestError Report) :=
  match s.reader, s.engineAt, s.keeper with
  | .ended lines, .ended, .ended refusal =>
    if s.parsers.all ParserPoint.isEnded then
      some (match refusal, lines, s.engine.fatal with
        | some e, _, _ => .error (.store e)
        | none, .error e, _ => .error (.journal e)
        | none, .ok _, some e => .error (.journal e)
        | none, .ok n, none =>
          .ok { lines := n
                events := s.engine.events
                invalid := s.engine.skipped.length
                ops := s.accepted.flatten.length
                batches := s.accepted.length
                tracker := s.engine.tracker.stats })
    else none
  | .ended _, .fallen, .ended _ =>
    if s.parsers.all ParserPoint.isEnded then some (.error (.panicked "engine")) else none
  | _, _, _ => none

/-- Lets the stages take steps as a schedule says.  A stage that cannot take one is passed over. -/
def follow [GraphStore σ] (c : Config) (failure : Option String) (s : Stages σ) :
    List Stage → Stages σ
  | [] => s
  | stage :: schedule =>
    match s.step c failure stage with
    | some s => follow c failure s schedule
    | none => follow c failure s schedule

/-! ## Schedules and steps -/

section Schedules

variable [GraphStore σ] {c : Config} {failure : Option String}

/-- A step before some steps. -/
theorem Steps.head {s s' s'' : Stages σ} {stage : Stage}
    (h : s.step c failure stage = some s') (hs : Steps c failure s' s'') :
    Steps c failure s s'' := by
  induction hs with
  | refl => exact .snoc stage (.refl s) h
  | snoc stage' _ h' ih => exact .snoc stage' ih h'

/-- Some steps and some more. -/
theorem Steps.trans {s s' s'' : Stages σ} (h : Steps c failure s s')
    (h' : Steps c failure s' s'') :
    Steps c failure s s'' := by
  induction h' with
  | refl => exact h
  | snoc stage _ hstep ih => exact .snoc stage ih hstep

/-- What a schedule does, the stages can do. -/
theorem steps_follow (s : Stages σ) (schedule : List Stage) :
    Steps c failure s (s.follow c failure schedule) := by
  induction schedule generalizing s with
  | nil => exact .refl s
  | cons stage schedule ih =>
    unfold follow
    split
    · rename_i h
      exact .head h (ih _)
    · exact ih s

end Schedules

end Stages

end Lineage.Session

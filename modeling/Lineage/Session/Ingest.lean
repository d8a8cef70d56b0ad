import Lineage.Diagnostics
import Lineage.Graph.Store
import Lineage.Session.Config
import Lineage.Session.Digest

/-!
# Ingesting a journal

An ingest turns a journal into operations and offers them to the store in batches.  All batches but
the last one are full.  The last one holds what is left over, and it is offered only if the journal
was read to its end.  After a batch that the store refuses, none is offered any more.

This is the order of a session that does one thing after the other.  The parsers of a session work
side by side, and the result is the one given here.  `Ingest.logs` holds the records that come in
the same order whatever the parsers do.
-/

namespace Lineage.Session

open Lineage.Audit (LineError Source)
open Lineage.Graph (GraphStore Op StoreError)

/-! ## Offering batches -/

/-- What came of offering some batches. -/
structure Offer (σ : Type) where
  /-- The store behind them. -/
  store : σ
  /-- The batches it accepted. -/
  accepted : List (List Op) := []
  /-- Why it refused one, if it did. -/
  refusal : Option StoreError := none

/-- Offers batches in order up to the first one that is refused. -/
def offer {σ : Type} [GraphStore σ] (s : σ) : List (List Op) → Offer σ
  | [] => { store := s }
  | batch :: batches =>
    match GraphStore.execute s batch with
    | (.error e, s) => { store := s, refusal := some e }
    | (.ok (), s) =>
      let o := offer s batches
      { o with accepted := batch :: o.accepted }

/-! ## Reports -/

/-- What an ingest reports. -/
structure Report where
  /-- The number of lines, blank ones included. -/
  lines : Nat := 0
  /-- The number of events. -/
  events : Nat := 0
  /-- The number of lines that were skipped because they were refused. -/
  invalid : Nat := 0
  /-- The number of operations that the store accepted. -/
  ops : Nat := 0
  /-- The number of batches that the store accepted. -/
  batches : Nat := 0
  /-- The counters of the tracker at the end. -/
  tracker : TrackerStats := {}
  deriving DecidableEq, Repr

/-- Why an ingest fails. -/
inductive IngestError where
  /-- The store refused a batch. -/
  | store (e : StoreError)
  /-- The journal could not be read, or a line of it was refused. -/
  | journal (e : LineError)
  /-- The thread of a stage has fallen. -/
  | panicked (stage : String)

/-! ## Records -/

/-- The record of a line that is skipped. -/
def skipRecord (e : LineError) : LogRecord where
  level := .warn
  message := "skipping invalid trace record"
  details := [("line", .number e.line),
    ("missing", .text (match e.missing? with
      | some missing => missing.keyList
      | none => "")),
    ("error", .text e.message)]

/-- The record of a line that ends an ingest. -/
def fatalRecord (e : LineError) : LogRecord where
  level := .error
  message := "aborting on invalid trace record"
  details := [("line", .number e.line), ("error", .text e.message)]

/-- The record of an ingest that failed on a line. -/
def failureRecord (e : LineError) : LogRecord where
  level := .error
  message := "ingest failed; session needs a restart"
  details := [("error", .text e.message)]

/-- The record of a journal that could not be read any further. -/
def sourceRecord (line : Nat) (reason : String) : LogRecord where
  level := .warn
  message := "trace input read failed"
  details := [("line", .number line), ("error", .text reason)]

/-- The record that a reader of a journal leaves with an error. -/
def readerRecord? (e : LineError) : Option LogRecord :=
  match e.cause with
  | .source reason => some (sourceRecord e.line reason)
  | .record _ => none

/-! ## The ingest -/

/-- Whether the stages of an ingest come to their ends.  An engine that has fallen takes nothing, so
all that is handed on needs room in front of it. -/
def Config.completes (c : Config) (source : Source) : Bool :=
  c.batchFits || decide (source.numberedLines.length + c.parserThreads ≤ c.ringCapacity)

/-- What came of an ingest. -/
structure Ingest (σ : Type) where
  /-- The tracker behind it. -/
  tracker : Tracker
  /-- The store behind it. -/
  store : σ
  /-- Its report, or why it failed. -/
  result : Except IngestError Report
  /-- The records it leaves in any case. -/
  logs : List LogRecord

/-- The batches that a digest is offered in.  The flag tells whether the journal was read to its
end. -/
def Digest.batches (d : Digest) (size : Nat) (complete : Bool) : List (List Op) :=
  let (full, rest) := cut size d.ops
  if complete && d.fatal.isNone && !rest.isEmpty then full ++ [rest] else full

/-- Turns a journal into operations and offers them to the store, whatever room the batches need. -/
def ingestJournal {σ : Type} [GraphStore σ] (c : Config) (t : Tracker) (s : σ)
    (source : Source) :
    Ingest σ :=
  let d := digestSource c.skipInvalid t source
  let o := offer s (d.batches c.batchSize source.failure.isNone)
  match o.refusal with
  | some e => ⟨d.tracker, o.store, .error (.store e), []⟩
  | none =>
    match source.error? with
    | some e => ⟨d.tracker, o.store, .error (.journal e), []⟩
    | none =>
      match d.fatal with
      | some e => ⟨d.tracker, o.store, .error (.journal e), [fatalRecord e, failureRecord e]⟩
      | none =>
        let report : Report :=
          { lines := source.lines.length
            events := d.events
            invalid := d.skipped.length
            ops := o.accepted.flatten.length
            batches := o.accepted.length
            tracker := d.tracker.stats }
        ⟨d.tracker, o.store, .ok report, d.skipped.map skipRecord⟩

end Lineage.Session

import Lineage.Graph.Store

/-!
# A store that records

A recorder keeps the batches it accepts and can be told when to refuse, and how.  It shows what a
session offers to its store, batch by batch.
-/

namespace Lineage.Graph

/-- How a recorder refuses. -/
inductive Refusal where
  /-- As if there were no way to the store. -/
  | connection
  /-- As if the disk were full. -/
  | transaction
  /-- In some other way. -/
  | storage
  /-- As if a node were not there. -/
  | unknownNode
  deriving DecidableEq, Repr

/-- The error of a refusal at a call, counted from zero. -/
def Refusal.error (call : Nat) : Refusal → StoreError
  | .connection => .connection "no route"
  | .transaction => .transaction call "disk full"
  | .storage => .storage
  | .unknownNode => .unknownNode call

/-- A store that records. -/
structure Recorder where
  /-- The number of batches it accepts, if there is a limit. -/
  limit : Option Nat := none
  /-- How it refuses. -/
  refusal : Refusal := .transaction
  /-- The number of times it will refuse to prepare. -/
  badPrepares : Nat := 0
  /-- The number of batches it was offered. -/
  calls : Nat := 0
  /-- The batches it accepted, last one first. -/
  accepted : List (List Op) := []

namespace Recorder

/-- The batches it accepted, in order. -/
def batches (r : Recorder) : List (List Op) := r.accepted.reverse

/-- Prepares, unless it was told to refuse. -/
def prepare (r : Recorder) : Except StoreError Unit × Recorder :=
  match r.badPrepares with
  | 0 => (.ok (), r)
  | n + 1 => (.error (r.refusal.error 0), { r with badPrepares := n })

/-- Whether the next batch is refused. -/
def isFull (r : Recorder) : Bool :=
  match r.limit with
  | none => false
  | some n => n ≤ r.accepted.length

/-- Records a batch, unless the limit is reached. -/
def execute (r : Recorder) (ops : List Op) : Except StoreError Unit × Recorder :=
  if r.isFull then (.error (r.refusal.error r.calls), { r with calls := r.calls + 1 })
  else (.ok (), { r with calls := r.calls + 1, accepted := ops :: r.accepted })

instance : GraphStore Recorder where
  prepare := prepare
  execute := execute

end Recorder

end Lineage.Graph

import Lineage.Audit.Event
import Lineage.Tracker.Roster

/-!
# From audit events to operations on the graph

The tracker turns each audit event into operations.  The process that acts is announced first if it
is not live.  Then the kind of the event decides.

* A process that starts a program keeps its node if it is thin, and the node gets the command line.
  Otherwise it gets a new node, and a relation to the next incarnation.
* A process that starts a child announces it with its own command line, or hands the command line on
  if the child is live already.  Either way there is a relation to the child.
* A process that ends is released.

`Roster.step` is the change of the roster with the operations, and `Tracker.process` counts besides.
`Tracker.processInto` leaves the operations in a buffer that its caller keeps.
-/

namespace Lineage

open Lineage.Graph (NodeId Uuid Op)
open Lineage.Audit (Event)

namespace Roster

/-- Makes sure that a process is live, and adds its node if it was not. -/
def announce (r : Roster) (uuid : Uuid) (pid : UInt32) (cmdline : String) :
    Roster × NodeId × List Op :=
  match r.sight uuid cmdline with
  | (r, id, true) => (r, id, [.createNode id uuid pid cmdline])
  | (r, id, false) => (r, id, [])

/-- The process at a node starts a program. -/
def startProgram (r : Roster) (id : NodeId) (e : Event) : Roster × List Op :=
  match (r.get? id).filter (·.thin) with
  | some _ =>
    ((r.setCmdline id e.cmdline).setThin id false, [.updateNode id e.pid e.cmdline])
  | none =>
    let (r, next) := r.renew e.subjProcUuid e.cmdline false
    (r, [.createNode next e.subjProcUuid e.pid e.cmdline, .createRel id next .next])

/-- The command line of the incarnation at a node, empty if there is none. -/
def cmdlineAt (r : Roster) (id : NodeId) : String :=
  match r.get? id with
  | some i => i.cmdline
  | none => ""

/-- The process at a node starts a child. -/
def startChild (r : Roster) (id : NodeId) (e : Event) : Roster × List Op :=
  let cmdline := r.cmdlineAt id
  match r.sight e.retObjUuid1 cmdline with
  | (r, child, true) =>
    (r, [.createNode child e.retObjUuid1 e.retval cmdline, .createRel id child .child])
  | (r, child, false) =>
    (r.setCmdline child cmdline,
      [.updateNode child e.retval cmdline, .createRel id child .child])

/-- The change that an event makes, and the operations it emits. -/
def step (r : Roster) (e : Event) : Roster × List Op :=
  let (r, id, announced) := r.announce e.subjProcUuid e.pid e.exec
  match e.kind with
  | .execve =>
    let (r, ops) := r.startProgram id e
    (r, announced ++ ops)
  | .fork | .vfork =>
    let (r, ops) := r.startChild id e
    (r, announced ++ ops)
  | .exit => ((r.release e.subjProcUuid).1, announced)
  | .other => (r, announced)

end Roster

/-- The counters of a tracker. -/
structure TrackerStats where
  /-- The number of events. -/
  events : Nat := 0
  /-- The number of nodes added. -/
  nodesCreated : Nat := 0
  /-- The number of live processes. -/
  live : Nat := 0
  deriving DecidableEq, Repr

/-- The state of the tracker between events. -/
structure Tracker where
  /-- The live processes. -/
  roster : Roster := {}
  /-- The number of events. -/
  events : Nat := 0
  /-- The number of nodes added. -/
  nodesCreated : Nat := 0

namespace Tracker

/-- The counters. -/
def stats (t : Tracker) : TrackerStats := ⟨t.events, t.nodesCreated, t.roster.size⟩

/-- The tracker after an event, and the operations that the event emits. -/
def process (t : Tracker) (e : Event) : Tracker × List Op :=
  let (roster, ops) := t.roster.step e
  ({ roster := roster
     events := t.events + 1
     nodesCreated := t.nodesCreated + ops.countP Op.isCreateNode }, ops)

/-- The tracker after an event, and the buffer of a caller with the operations of the event behind
what it held.  The nodes are counted in what is new in the buffer. -/
def processInto (t : Tracker) (e : Event) (buffer : List Op) : Tracker × List Op :=
  let (roster, ops) := t.roster.step e
  let longer := buffer ++ ops
  ({ roster := roster
     events := t.events + 1
     nodesCreated :=
      t.nodesCreated + (longer.drop buffer.length).countP Op.isCreateNode }, longer)

/-- The tracker after some events, and the operations they emit, in order. -/
def run (t : Tracker) : List Event → Tracker × List Op
  | [] => (t, [])
  | e :: es =>
    let (t, ops) := t.process e
    let (t, more) := t.run es
    (t, ops ++ more)

end Tracker

end Lineage

import Lineage.Graph.Operation
import Lineage.Table

/-!
# The roster of live processes

The roster knows, for the identity of every live process, the id of its current incarnation, and for
every current incarnation its command line and whether it is *thin*.  An incarnation is thin while
the process was sighted and has started no program since.

Ids come from a counter and are never used twice.  A process that is renewed or released loses its
old incarnation, and what was emitted about it keeps its id.
-/

namespace Lineage

open Lineage.Graph (NodeId Uuid)

/-- The current incarnation of a process. -/
structure Incarnation where
  /-- Its node. -/
  id : NodeId
  /-- Its command line. -/
  cmdline : String
  /-- Whether no program was started yet. -/
  thin : Bool
  deriving DecidableEq, Repr

/-- The live processes. -/
structure Roster where
  /-- The node of the current incarnation of each process. -/
  index : Table Uuid NodeId := ∅
  /-- The current incarnations by their nodes. -/
  incarnations : Table NodeId Incarnation := ∅
  /-- The id of the next node. -/
  nextId : NodeId := 0

namespace Roster

/-- The node of a process. -/
def find? (r : Roster) (uuid : Uuid) : Option NodeId := r.index.get? uuid

/-- The incarnation at a node. -/
def get? (r : Roster) (id : NodeId) : Option Incarnation := r.incarnations.get? id

/-- The current incarnation of a process. -/
def current? (r : Roster) (uuid : Uuid) : Option Incarnation := (r.find? uuid).bind r.get?

/-- The number of live processes. -/
def size (r : Roster) : Nat := r.index.size

/-- Gives a process a new incarnation in place of the old one, and returns its node. -/
def renew (r : Roster) (uuid : Uuid) (cmdline : String) (thin : Bool) : Roster × NodeId :=
  let id := r.nextId
  let incarnations := r.incarnations.insert id ⟨id, cmdline, thin⟩
  ({ index := r.index.insert uuid id
     incarnations :=
      match r.index.get? uuid with
      | some old => incarnations.erase old
      | none => incarnations
     nextId := id + 1 }, id)

/-- The node of a process, which gets a thin incarnation if it is not live.  The flag tells whether
it got one. -/
def sight (r : Roster) (uuid : Uuid) (cmdline : String) : Roster × NodeId × Bool :=
  match r.find? uuid with
  | some id => (r, id, false)
  | none =>
    let (r, id) := r.renew uuid cmdline true
    (r, id, true)

/-- Forgets a process, and returns the incarnation it had. -/
def release (r : Roster) (uuid : Uuid) : Roster × Option Incarnation :=
  match r.find? uuid with
  | none => (r, none)
  | some id =>
    ({ r with index := r.index.erase uuid, incarnations := r.incarnations.erase id }, r.get? id)

/-- Changes the incarnation at a node. -/
def edit (r : Roster) (id : NodeId) (f : Incarnation → Incarnation) : Roster :=
  { r with incarnations := r.incarnations.modify id f }

/-- Changes the command line of the incarnation at a node. -/
def setCmdline (r : Roster) (id : NodeId) (cmdline : String) : Roster :=
  r.edit id fun i => { i with cmdline := cmdline }

/-- Changes the mark of the incarnation at a node. -/
def setThin (r : Roster) (id : NodeId) (thin : Bool) : Roster :=
  r.edit id fun i => { i with thin := thin }

end Roster

end Lineage

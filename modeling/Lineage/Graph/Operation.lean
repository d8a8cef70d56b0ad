/-!
# Operations on the lineage graph

The graph has a node for every incarnation of a process.  A node has an id, the identity under which
the trace knows the process, a process number and a command line.  Relations lead from one
incarnation to another: to the *next* one of the same process after it starts another program, or to
the one of a *child*.

The graph is only ever changed by the three operations of `Op`, which name nodes by their ids.
-/

namespace Lineage.Graph

/-- The id of a node. -/
abbrev NodeId := Nat

/-- The identity under which the trace knows a process.  It is compared and never looked into. -/
abbrev Uuid := String

/-- Identities in the order of their code points, which is the order of the bytes that hold them. -/
def sortUuids (uuids : List Uuid) : List Uuid := uuids.mergeSort fun u v => u ≤ v

/-- The classes of relations. -/
inductive RelClass where
  /-- To the next incarnation of the same process. -/
  | next
  /-- To the first incarnation of a child. -/
  | child
  deriving DecidableEq, Repr

/-- The name of a class. -/
def RelClass.name : RelClass → String
  | .next => "next"
  | .child => "child"

/-- The class with a name. -/
def RelClass.ofName? : String → Option RelClass
  | "next" => some .next
  | "child" => some .child
  | _ => none

theorem RelClass.ofName?_name (c : RelClass) : ofName? c.name = some c := by cases c <;> rfl

/-- An operation on the graph. -/
inductive Op where
  /-- Adds a node. -/
  | createNode (id : NodeId) (uuid : Uuid) (pid : UInt32) (cmdline : String)
  /-- Adds a relation. -/
  | createRel (src dst : NodeId) (cls : RelClass)
  /-- Changes the process number and command line of a node. -/
  | updateNode (id : NodeId) (pid : UInt32) (cmdline : String)
  deriving DecidableEq, Repr

/-- Whether the operation adds a node. -/
def Op.isCreateNode : Op → Bool
  | .createNode .. => true
  | _ => false

end Lineage.Graph

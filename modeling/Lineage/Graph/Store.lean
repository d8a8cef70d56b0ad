import Lineage.Graph.Operation
import Lineage.Table

/-!
# Stores

A store takes operations in batches.  Each batch is one transaction, applied as a whole or not at
all (`GraphStore`).  Before the first batch of a session it is asked to prepare itself.

`Memory` keeps the graph.  It refuses a relation or an update that names a node it does not have,
and the batch around it.
-/

namespace Lineage.Graph

/-! ## Errors -/

/-- Why a store refuses. -/
inductive StoreError where
  /-- It cannot be reached. -/
  | connection (reason : String)
  /-- It rejected a batch. -/
  | transaction (batch : Nat) (reason : String)
  /-- It failed in some other way. -/
  | storage
  /-- A batch names a node that is not there. -/
  | unknownNode (id : NodeId)
  deriving DecidableEq, Repr

/-- The message of an error. -/
def StoreError.message : StoreError → String
  | .connection reason => "graph store connection failed: " ++ reason
  | .transaction batch reason =>
    "graph store rejected batch " ++ toString batch ++ ": " ++ reason
  | .storage => "graph store error"
  | .unknownNode id => "operation references unknown node " ++ toString id

/-- A store with states of type `σ`. -/
class GraphStore (σ : Type) where
  /-- Prepares for a session. -/
  prepare : σ → Except StoreError Unit × σ
  /-- Applies a batch as a whole or not at all. -/
  execute : σ → List Op → Except StoreError Unit × σ

/-! ## The store in memory -/

/-- A node. -/
structure Node where
  /-- Its id. -/
  id : NodeId
  /-- The identity of the process. -/
  uuid : Uuid
  /-- The process number. -/
  pid : UInt32
  /-- The command line. -/
  cmdline : String
  deriving DecidableEq, Repr

/-- A relation between two nodes. -/
structure Relation where
  /-- The node it starts from. -/
  src : NodeId
  /-- The node it leads to. -/
  dst : NodeId
  /-- Its class. -/
  cls : RelClass
  deriving DecidableEq, Repr

/-- A graph and the number of batches it was made from. -/
structure Memory where
  /-- The nodes by their ids. -/
  nodes : Table NodeId Node := ∅
  /-- The relations in the order in which they were added. -/
  relations : List Relation := []
  /-- The number of batches that were applied. -/
  batches : Nat := 0

namespace Memory

/-- Applies one operation. -/
def apply (m : Memory) : Op → Except StoreError Memory
  | .createNode id uuid pid cmdline =>
    .ok { m with nodes := m.nodes.insert id ⟨id, uuid, pid, cmdline⟩ }
  | .createRel src dst cls =>
    if !m.nodes.contains src then .error (.unknownNode src)
    else if !m.nodes.contains dst then .error (.unknownNode dst)
    else .ok { m with relations := m.relations ++ [⟨src, dst, cls⟩] }
  | .updateNode id pid cmdline =>
    if !m.nodes.contains id then .error (.unknownNode id)
    else
      .ok { m with nodes := m.nodes.modify id fun p =>
        { p with pid := pid, cmdline := cmdline } }

/-- Applies operations in order up to the first one that is refused. -/
def applyAll : Memory → List Op → Except StoreError Memory
  | m, [] => .ok m
  | m, op :: ops =>
    match m.apply op with
    | .error e => .error e
    | .ok m => m.applyAll ops

/-- Applies a batch as a whole or not at all. -/
def execute (m : Memory) (ops : List Op) : Except StoreError Unit × Memory :=
  match m.applyAll ops with
  | .error e => (.error e, m)
  | .ok m' => (.ok (), { m' with batches := m.batches + 1 })

instance : GraphStore Memory where
  prepare m := (.ok (), m)
  execute := execute

/-- The nodes in the order of their ids. -/
def nodeList (m : Memory) : List Node :=
  (m.nodes.entries.map Prod.snd).mergeSort fun p q => p.id ≤ q.id

/-- The nodes that the relations of a class lead to from a node, in the order in which they were
added. -/
def successors (m : Memory) (src : NodeId) (cls : RelClass) : List NodeId :=
  (m.relations.filter fun r => r.src = src ∧ r.cls = cls).map Relation.dst

end Memory

end Lineage.Graph

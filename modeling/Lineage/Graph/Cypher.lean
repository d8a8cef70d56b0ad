import Lineage.Graph.Operation
import Lineage.Json.Printer

/-!
# Batches as Cypher queries

A batch is rendered as one query, a clause for each operation in order (`render`).  The separator
between two clauses brings whatever rows a clause has produced back to a single one, so every clause
acts once.  Strings are written as JSON writes them, so no text can end its literal.

`externalRefs` lists the nodes that a batch names before it creates them, and `missingCheck` is the
query that asks for the least of some nodes that is not there.
-/

namespace Lineage.Graph.Cypher

open Lineage.Json (printString)

/-! ## Clauses -/

/-- A pattern of a process by its id. -/
def matchById (name : String) (id : NodeId) : String :=
  "(" ++ name ++ ":Process \x7bdb_id: " ++ toString id ++ "\x7d)"

/-- The clause of an operation. -/
def clause : Op → String
  | .createNode id uuid pid cmdline =>
    "CREATE (:Process \x7bdb_id: " ++ toString id ++ ", uuid: " ++ printString uuid ++ ", pid: " ++
      toString pid.toNat ++ ", cmdline: " ++ printString cmdline ++ "\x7d)"
  | .createRel src dst cls =>
    "MATCH " ++ matchById "a" src ++ ", " ++ matchById "b" dst ++
      " CREATE (a)-[:INF \x7bclass: " ++ printString cls.name ++ "\x7d]->(b)"
  | .updateNode id pid cmdline =>
    "MATCH " ++ matchById "p" id ++ " SET p.pid = " ++ toString pid.toNat ++ ", p.cmdline = " ++
      printString cmdline

/-- What stands between two clauses. -/
def separator : String := "\nWITH count(*) AS _\n"

/-- The query of a batch. -/
def render (ops : List Op) : String := separator.intercalate (ops.map clause)

/-! ## Nodes from outside a batch -/

/-- The nodes that an operation needs. -/
def needs : Op → List NodeId
  | .createNode .. => []
  | .createRel src dst _ => [src, dst]
  | .updateNode id .. => [id]

/-- The node that an operation creates. -/
def creates : Op → List NodeId
  | .createNode id .. => [id]
  | _ => []

/-- The nodes that some operations need and that neither `created` holds nor an earlier one of them
creates. -/
def neededFrom : List NodeId → List Op → List NodeId
  | _, [] => []
  | created, op :: ops =>
    (needs op).filter (fun id => !created.contains id) ++ neededFrom (creates op ++ created) ops

/-- Puts an id into an ascending list, once. -/
def insertAscending (id : NodeId) : List NodeId → List NodeId
  | [] => [id]
  | i :: is =>
    if id < i then id :: i :: is else if id = i then i :: is else i :: insertAscending id is

/-- The nodes that a batch names before it creates them, ascending. -/
def externalRefs (ops : List Op) : List NodeId :=
  (neededFrom [] ops).foldr insertAscending []

/-- The query for the least of some nodes that is not there, or `-1`. -/
def missingCheck (ids : List NodeId) : String :=
  "UNWIND [" ++ ", ".intercalate (ids.map toString) ++
    "] AS id OPTIONAL MATCH (p:Process \x7bdb_id: id\x7d) " ++
    "WITH id, p WHERE p IS NULL RETURN coalesce(min(id), -1)"

/-- The query that makes an index on a property. -/
def createIndex (property : String) : String :=
  "CREATE INDEX FOR (p:Process) ON (p." ++ property ++ ")"

end Lineage.Graph.Cypher

import Lineage.Graph.Cypher
import Lineage.Graph.Database
import Lineage.Graph.Store
import Lineage.Text.Blank
import Lineage.Text.Integer

/-!
# The store behind a database

A batch becomes one query, which the server applies as one transaction.  If the batch names nodes
that it does not create itself, a query that only reads asks for the least of them that is not
there, and nothing is written unless the reply is `-1`.  Any other number is an unknown node, and
any other reply a failure of the batch.

Batches that hold an operation are counted, whether they succeed or not, and the count numbers the
failures.  Preparing makes an index for each of two properties.  An index that is there already is
no failure.
-/

namespace Lineage.Graph

/-- A store that sends its batches to a graph of a database. -/
structure Remote where
  /-- The name of the graph. -/
  graph : String
  /-- The database. -/
  database : Database
  /-- The number of batches that held an operation. -/
  batches : Nat := 0

namespace Remote

/-- Sends a query about the graph. -/
def ask (r : Remote) (readOnly : Bool) (text : String) : Answer × Remote :=
  let (answer, database) := r.database.ask ⟨readOnly, r.graph, text⟩
  (answer, { r with database := database })

/-! ## Indexes -/

/-- Whether a text is part of another. -/
def isInfixOf (part : List Char) : List Char → Bool
  | [] => part.isEmpty
  | c :: cs => part.isPrefixOf (c :: cs) || isInfixOf part cs

/-- Whether an error says that the index is there already. -/
def saysPresent (error : String) : Bool :=
  let text := (error.map Char.toLower).toList
  isInfixOf "already indexed".toList text || isInfixOf "already exists".toList text

/-- Makes sure that there is an index on a property. -/
def ensureIndex (r : Remote) (property : String) : Except StoreError Unit × Remote :=
  match r.ask false (Cypher.createIndex property) with
  | (.ok _, r) => (.ok (), r)
  | (.error e, r) => (if saysPresent e then .ok () else .error (.connection e), r)

/-- Makes sure that there are both indexes. -/
def prepare (r : Remote) : Except StoreError Unit × Remote :=
  match r.ensureIndex "db_id" with
  | (.error e, r) => (.error e, r)
  | (.ok (), r) => r.ensureIndex "uuid"

/-! ## Batches -/

/-- What a reply to the check of nodes says. -/
inductive Verdict where
  /-- All are there. -/
  | present
  /-- One is not there. -/
  | missing (id : NodeId)
  /-- It is no reply to such a check. -/
  | unclear
  deriving DecidableEq, Repr

/-- Reads the reply to the check of nodes. -/
def verdict (reply : String) : Verdict :=
  match Text.signed? (Text.trim reply.toList) with
  | none => .unclear
  | some n => if n = -1 then .present else if 0 ≤ n then .missing n.toNat else .unclear

/-- Fails unless all of some nodes are there. -/
def ensurePresent (r : Remote) (batch : Nat) (ids : List NodeId) :
    Except StoreError Unit × Remote :=
  if ids.isEmpty then (.ok (), r)
  else
    match r.ask true (Cypher.missingCheck ids) with
    | (.error reason, r) => (.error (.transaction batch reason), r)
    | (.ok reply, r) =>
      match verdict reply with
      | .present => (.ok (), r)
      | .missing id => (.error (.unknownNode id), r)
      | .unclear =>
        (.error (.transaction batch
          ("unexpected reply to endpoint check: " ++ Text.quoted reply)), r)

/-- Sends the query of a batch. -/
def write (r : Remote) (batch : Nat) (ops : List Op) : Except StoreError Unit × Remote :=
  match r.ask false (Cypher.render ops) with
  | (.error reason, r) => (.error (.transaction batch reason), r)
  | (.ok _, r) => (.ok (), r)

/-- Checks the nodes that a batch needs and writes it. -/
def execute (r : Remote) (ops : List Op) : Except StoreError Unit × Remote :=
  if ops.isEmpty then (.ok (), r)
  else
    let batch := r.batches
    match ensurePresent { r with batches := batch + 1 } batch (Cypher.externalRefs ops) with
    | (.error e, r) => (.error e, r)
    | (.ok (), r) => r.write batch ops

instance : GraphStore Remote where
  prepare := prepare
  execute := execute

end Remote

end Lineage.Graph

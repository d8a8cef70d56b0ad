import Lineage.Proofs.Graph.QuerySteps
import Lineage.Proofs.Text.Pieces

/-!
# Batches read back

A query is cut at the separators (`clausesOf`), and each clause says an operation by the steps it
takes (`readOp?`).  So the batch of a query is read (`readBatch?`).

Whatever the strings of the operations hold, be it quotes or a separator, a batch has a clause for
each of its operations, and the batch that is read is the one that was written
(`batches_read_back`).
-/

namespace Lineage.Graph.Cypher

open Lineage.Json (printString)
open Lineage.Json.Grammar (utf8 IsPrinted isPrinted_printString isPrinted_repr)
open Lineage.Text (piecesOf piecesOf_empty piecesOf_intercalate)

/-! ## Operations from their steps -/

/-- The operation that makes a node with some properties. -/
def createNode? (properties : Properties) : Option Op := do
  let id ← (properties.lookup "db_id").bind Value.number?
  let uuid ← (properties.lookup "uuid").bind Value.text?
  let pid ← (properties.lookup "pid").bind Value.word?
  let cmdline ← (properties.lookup "cmdline").bind Value.text?
  return .createNode id uuid pid cmdline

/-- The operation that makes an edge with some properties between two nodes. -/
def createRel? (src dst properties : Properties) : Option Op := do
  let src ← (src.lookup "db_id").bind Value.number?
  let dst ← (dst.lookup "db_id").bind Value.number?
  let name ← (properties.lookup "class").bind Value.text?
  let cls ← RelClass.ofName? name
  return .createRel src dst cls

/-- The operation that gives a node some properties. -/
def updateNode? (node properties : Properties) : Option Op := do
  let id ← (node.lookup "db_id").bind Value.number?
  let pid ← (properties.lookup "pid").bind Value.word?
  let cmdline ← (properties.lookup "cmdline").bind Value.text?
  return .updateNode id pid cmdline

/-- The operation that some steps are those of. -/
def opOf? : List Step → Option Op
  | [.create (.node p)] => createNode? p.properties
  | [.find [p, q], .create (.edge src _ properties dst)] =>
    if src.name = p.name ∧ dst.name = q.name then
      createRel? p.properties q.properties properties
    else none
  | [.find [p], .set assignments] =>
    if assignments.all fun a => some a.name = p.name then
      updateNode? p.properties (assignments.map fun a => (a.property, a.value))
    else none
  | _ => none

/-- An operation is read back from its steps. -/
theorem opOf?_stepsOf (op : Op) : opOf? (stepsOf op) = some op := by
  cases op with
  | createNode id uuid pid cmdline =>
      simp [stepsOf, opOf?, createNode?, List.lookup_cons, Value.number?, Value.text?]
  | createRel src dst cls => cases cls <;> rfl
  | updateNode id pid cmdline =>
      simp [stepsOf, opOf?, updateNode?, process, List.lookup_cons, Value.number?, Value.text?]

/-- The operation of a clause. -/
def readOp? (text : String) : Option Op := (readQuery? (utf8 text)).bind opOf?

theorem readOp?_clause (op : Op) : readOp? (clause op) = some op := by
  rw [readOp?, readQuery?_clause]
  exact opOf?_stepsOf op

/-! ## Clauses of a query -/

instance (t : String) : Decidable (IsPrinted t) :=
  List.decidableBAll (fun c : Char => 0x20 ≤ c.toNat) t.toList

theorem isPrinted_append {t t' : String} :
    IsPrinted (t ++ t') ↔ IsPrinted t ∧ IsPrinted t' := by
  simp only [IsPrinted, String.toList_append, List.mem_append, or_imp, forall_and]

theorem isPrinted_matchById (name : String) (hname : IsPrinted name) (id : NodeId) :
    IsPrinted (matchById name id) := by
  simp only [matchById, isPrinted_append, hname, isPrinted_repr]
  decide

/-- A clause is one line. -/
theorem isPrinted_clause (op : Op) : IsPrinted (clause op) := by
  unfold clause
  cases op with
  | createNode id uuid pid cmdline =>
      simp only [isPrinted_append, isPrinted_printString, isPrinted_repr]
      decide
  | createRel src dst cls =>
      have ha := isPrinted_matchById "a" (by decide) src
      have hb := isPrinted_matchById "b" (by decide) dst
      simp only [isPrinted_append, isPrinted_printString, ha, hb]
      decide
  | updateNode id pid cmdline =>
      have hp := isPrinted_matchById "p" (by decide) id
      simp only [isPrinted_append, isPrinted_printString, isPrinted_repr, hp]
      decide

theorem lineBreak_notMem_clause (op : Op) : '\n' ∉ (clause op).toList := fun h =>
  absurd (isPrinted_clause op '\n' h) (by decide)

theorem clause_ne_empty (op : Op) : clause op ≠ "" := by
  intro hempty
  have hread := readOp?_clause op
  rw [hempty] at hread
  cases (congrArg (·.bind opOf?) readQuery?_nil).symm.trans hread

/-- The query of a batch is cut into the clauses of its operations, and that of the empty batch is
one empty piece. -/
theorem piecesOf_render (ops : List Op) :
    piecesOf separator (render ops) = if ops = [] then [""] else ops.map clause := by
  split
  next hops =>
    subst hops
    exact piecesOf_empty separator
  next hops =>
    have hseparator : separator.toList = '\n' :: "WITH count(*) AS _\n".toList := rfl
    refine piecesOf_intercalate hseparator ?_ ?_
    · exact fun hnil => hops (List.map_eq_nil_iff.mp hnil)
    · intro t ht
      obtain ⟨op, _, rfl⟩ := List.mem_map.mp ht
      exact lineBreak_notMem_clause op

/-- The clauses of a query.  An empty piece is none. -/
def clausesOf (text : String) : List String := (piecesOf separator text).filter (· ≠ "")

theorem clausesOf_render (ops : List Op) : clausesOf (render ops) = ops.map clause := by
  rw [clausesOf, piecesOf_render]
  split
  next hops =>
    subst hops
    rfl
  next =>
    refine List.filter_eq_self.mpr fun t ht => ?_
    obtain ⟨op, _, rfl⟩ := List.mem_map.mp ht
    exact decide_eq_true (clause_ne_empty op)

/-! ## Batches -/

/-- The batch of a query. -/
def readBatch? (text : String) : Option (List Op) := (clausesOf text).mapM readOp?

theorem readBatch?_render (ops : List Op) : readBatch? (render ops) = some ops := by
  rw [readBatch?, clausesOf_render]
  induction ops with
  | nil => rfl
  | cons op ops ih =>
      rw [List.map_cons, List.mapM_cons, readOp?_clause, ih]
      rfl

/-- The query of a batch is cut into one clause for each operation.  That of the empty batch has
none, and is one empty piece.  Each clause says its operation, and the whole query takes the steps
of the operations, with a count of the rows between two of them.  So the batch is read back, and
different batches have different queries. -/
theorem batches_read_back (ops ops' : List Op) :
    piecesOf separator (render ops) = (if ops = [] then [""] else ops.map clause) ∧
    clausesOf (render ops) = ops.map clause ∧
    (∀ op, readOp? (clause op) = some op) ∧
    readQuery? (utf8 (render ops)) = some ([.count "_"].intercalate (ops.map stepsOf)) ∧
    readBatch? (render ops) = some ops ∧
    (render ops = render ops' ↔ ops = ops') := by
  refine ⟨piecesOf_render ops, clausesOf_render ops, readOp?_clause, readQuery?_render ops,
    readBatch?_render ops, fun h => ?_, congrArg render⟩
  have hread := readBatch?_render ops
  rw [h, readBatch?_render ops', Option.some.injEq] at hread
  exact hread.symm

end Lineage.Graph.Cypher

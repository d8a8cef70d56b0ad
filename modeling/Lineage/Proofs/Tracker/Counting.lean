import Lineage.Proofs.Tracker.Numbering

/-!
# Nodes are counted

A caller may keep one buffer for the operations of many events, and send off or add to what it holds
in between.  `Tracker.runInto` is a run of such calls, each with the buffer as the caller has left
it.  Neither the operations nor the counters depend on what the buffers hold (`Tracker.runInto_eq`).
So the nodes of any calls on a new tracker are numbered from zero, and their number is both what the
tracker counts and the next id of its roster (`Tracker.nodes_dense`).
-/

namespace Lineage

open Lineage.Audit (Event)
open Lineage.Graph (NodeId Op)
open Lineage.Graph.Cypher (creates)

namespace Graph

/-- An operation that adds a node creates one, and no other operation does. -/
theorem length_creates (op : Op) : (creates op).length = if op.isCreateNode then 1 else 0 := by
  cases op <;> rfl

/-- Operations create as many nodes as there are operations that add one. -/
theorem length_flatMap_creates (ops : List Op) :
    (ops.flatMap creates).length = ops.countP Op.isCreateNode := by
  induction ops with
  | nil => rfl
  | cons op ops ih =>
      rw [List.flatMap_cons, List.length_append, ih, length_creates, List.countP_cons, Nat.add_comm]

end Graph

namespace Tracker

/-! ## A buffer -/

/-- The tracker after some calls, each with an event and with what the buffer holds at the call, and
the operations that the calls append to the buffer, in order. -/
def runInto (t : Tracker) : List (Event × List Op) → Tracker × List Op
  | [] => (t, [])
  | (e, held) :: calls =>
    let (t, buffer) := t.processInto e held
    let (t, more) := t.runInto calls
    (t, buffer.drop held.length ++ more)

/-- The operations of an event come behind what the buffer holds. -/
theorem processInto_eq (t : Tracker) (e : Event) (buffer : List Op) :
    t.processInto e buffer = ((t.process e).1, buffer ++ (t.process e).2) := by
  simp only [processInto, process, List.drop_left]

/-- What the buffers hold makes no difference. -/
theorem runInto_eq (t : Tracker) (calls : List (Event × List Op)) :
    t.runInto calls = t.run (calls.map Prod.fst) := by
  induction calls generalizing t with
  | nil => rfl
  | cons call calls ih =>
      obtain ⟨e, held⟩ := call
      simp only [runInto, processInto_eq, List.drop_left, ih, List.map_cons, run]

/-! ## The counter -/

/-- The counter grows by the nodes that some events add. -/
theorem nodesCreated_run (t : Tracker) (es : List Event) :
    (t.run es).1.nodesCreated = t.nodesCreated + (t.run es).2.countP Op.isCreateNode := by
  induction es generalizing t with
  | nil => rfl
  | cons e es ih =>
      simp only [run, ih, List.countP_append]
      rw [process, Nat.add_assoc]

/-- The nodes of any calls on a new tracker have the ids from zero on, in order and without a gap.
Their number is what the tracker counts and the id of the next node.  The buffers keep what they
hold, and it makes no difference to the tracker or to the operations. -/
theorem nodes_dense (calls : List (Event × List Op)) :
    let (t, ops) := ({} : Tracker).runInto calls
    let n := ops.countP Op.isCreateNode
    ops.flatMap creates = List.range n ∧ t.stats.nodesCreated = n ∧ t.roster.nextId = n ∧
      (t, ops) = ({} : Tracker).run (calls.map Prod.fst) ∧
      ∀ e held, held <+: (t.processInto e held).2 := by
  have hrun := runInto_eq {} calls
  have hchanges : Roster.Changes True _ _ _ :=
    ({} : Tracker).run_changes (calls.map Prod.fst) (.inl trivial)
  have hcreates := hchanges.creates_eq
  have hlength := congrArg List.length hcreates
  rw [Graph.length_flatMap_creates, List.length_range] at hlength
  have hcount := nodesCreated_run {} (calls.map Prod.fst)
  rw [hrun]
  refine ⟨hlength ▸ hcreates, hcount.trans (Nat.zero_add _), hlength.symm,
    rfl, fun e held => ?_⟩
  rw [processInto_eq]
  exact List.prefix_append held _

/-- A process that ends is added and released, and its buffer holds a node of another stream.
Neither is counted twice. -/
example :
    let exit : Event := { event := "audit:event:aue_exit:", subjProcUuid := "U1" }
    let held : List Op := [.createNode 7 "V" 1 "sh"]
    let (t, ops) := ({} : Tracker).runInto [(exit, held), (exit, [])]
    ops.flatMap creates = [0, 1] ∧ t.stats = ⟨2, 2, 0⟩ := by
  decide

end Tracker

end Lineage

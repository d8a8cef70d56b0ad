import Mathlib.Data.List.Nodup
import Mathlib.Data.List.Pairwise
import Lineage.Graph.Cypher
import Lineage.Proofs.Tracker.Changes

/-!
# Ids come one after the other

Whatever the events, the nodes that their operations create have the ids from the counter of the
roster before them to the one behind them, without a gap and without a repetition
(`Tracker.run_numbers`).  So the nodes that any first part of the operations creates are numbered
without a gap as well, and a node belongs to one process only (`Roster.Changes.uuid_unique`), to the
one whose current node it is if there is one (`Roster.Changes.exists_createNode`).
-/

namespace Lineage

open Lineage.Audit (Event)
open Lineage.Graph (NodeId Op Uuid)
open Lineage.Graph.Cypher (creates)

/-- Some operations create the nodes from the counter of one roster to that of another. -/
def Roster.Numbers (r : Roster) (ops : List Op) (r' : Roster) : Prop :=
  ∃ n, ops.flatMap creates = List.range' r.nextId n ∧ r'.nextId = r.nextId + n

namespace Roster

namespace Numbers

variable {r r' r'' : Roster} {ops ops' : List Op}

/-- Operations that create nothing leave the counter alone. -/
theorem none (hops : ops.flatMap creates = []) (hnext : r'.nextId = r.nextId) : r.Numbers ops r' :=
  ⟨0, hops, hnext⟩

/-- A single node has the id that the counter gives. -/
theorem one (hops : ops.flatMap creates = [r.nextId]) (hnext : r'.nextId = r.nextId + 1) :
    r.Numbers ops r' :=
  ⟨1, hops, hnext⟩

theorem append (h : r.Numbers ops r') (h' : r'.Numbers ops' r'') : r.Numbers (ops ++ ops') r'' := by
  obtain ⟨m, hops, hnext⟩ := h
  obtain ⟨n, hops', hnext'⟩ := h'
  refine ⟨m + n, ?_, ?_⟩
  · rw [List.flatMap_append, hops, hops', hnext, List.range'_append_1]
  · rw [hnext', hnext, Nat.add_assoc]

end Numbers

/-! ## Steps -/

section Steps

variable {shared : Prop} {r r' : Roster} {ops : List Op}

theorem Change.numbers (h : Change shared r ops r') : r.Numbers ops r' := by
  cases h with
  | appear _ _ _ => exact .one rfl rfl
  | start _ _ _ => exact .none rfl rfl
  | restart _ _ _ => exact .one rfl rfl
  | bear _ _ _ _ => exact .one rfl rfl
  | share _ _ _ _ _ => exact .none rfl rfl
  | leave uuid => exact .none rfl (nextId_release r uuid)

/-- The nodes of some steps have the next ids. -/
theorem Changes.numbers (h : Changes shared r ops r') : r.Numbers ops r' := by
  induction h with
  | refl => exact .none rfl rfl
  | snoc _ hnew ih => exact ih.append hnew.numbers

/-- The nodes behind a new roster are numbered from zero. -/
theorem Changes.creates_eq (h : Changes shared {} ops r) :
    ops.flatMap creates = List.range r.nextId := by
  obtain ⟨n, hcreates, hnext⟩ := h.numbers
  rw [hcreates, hnext, List.range_eq_range', Nat.zero_add]

theorem Changes.lt_nextId (h : Changes shared {} ops r) {id : NodeId}
    (hid : id ∈ ops.flatMap creates) : id < r.nextId := by
  rwa [h.creates_eq, List.mem_range] at hid

/-! ## The process of a node -/

theorem mem_creates {uuid : Uuid} {id : NodeId} {pid : UInt32} {cmdline : String}
    (h : Op.createNode id uuid pid cmdline ∈ ops) : id ∈ ops.flatMap creates :=
  List.mem_flatMap.mpr ⟨_, h, List.mem_singleton_self id⟩

/-- A step gives a node to a process by creating it. -/
theorem Change.find?_cases (h : Change shared r ops r') {uuid : Uuid} {id : NodeId}
    (hlive : r'.find? uuid = some id) :
    r.find? uuid = some id ∨ ∃ pid cmdline, Op.createNode id uuid pid cmdline ∈ ops := by
  cases h with
  | appear pid cmdline _ | restart pid cmdline _ | bear pid cmdline _ _ =>
      rw [find?_renew] at hlive
      split at hlive
      · rename_i huuid
        cases hlive
        exact .inr ⟨pid, cmdline, huuid ▸ List.mem_cons_self ..⟩
      · exact .inl hlive
  | start _ _ _ => exact .inl hlive
  | share _ _ _ _ _ => exact .inl hlive
  | leave _ =>
      rw [find?_release] at hlive
      split at hlive
      · cases hlive
      · exact .inl hlive

/-- The node of a live process was created for it. -/
theorem Changes.exists_createNode (h : Changes shared {} ops r) {uuid : Uuid} {id : NodeId}
    (hlive : r.find? uuid = some id) :
    ∃ pid cmdline, Op.createNode id uuid pid cmdline ∈ ops := by
  induction h with
  | refl => cases hlive
  | snoc _ hnew ih =>
      cases hnew.find?_cases hlive with
      | inl hold =>
          obtain ⟨pid, cmdline, hmem⟩ := ih hold
          exact ⟨pid, cmdline, List.mem_append_left _ hmem⟩
      | inr hcreated =>
          obtain ⟨pid, cmdline, hmem⟩ := hcreated
          exact ⟨pid, cmdline, List.mem_append_right _ hmem⟩

/-- A node is created for one process only. -/
theorem Changes.uuid_unique (h : Changes shared {} ops r) {id : NodeId} {uuid uuid' : Uuid}
    {pid pid' : UInt32} {cmdline cmdline' : String}
    (hmem : Op.createNode id uuid pid cmdline ∈ ops)
    (hmem' : Op.createNode id uuid' pid' cmdline' ∈ ops) : uuid = uuid' := by
  have hnodup : (ops.flatMap creates).Nodup := h.creates_eq ▸ List.nodup_range
  have hapart := (List.nodup_flatMap.mp hnodup).2
  have hsymm : Std.Symm (Function.onFun List.Disjoint creates) :=
    ⟨fun _ _ => List.disjoint_symm⟩
  by_contra hne
  have hdisjoint := hapart.forall hmem hmem' (by simp [hne])
  exact hdisjoint (List.mem_singleton_self id) (List.mem_singleton_self id)

end Steps

end Roster

/-! ## Many events -/

namespace Tracker

/-- More events come after those before them. -/
theorem run_append (t : Tracker) (es fs : List Event) :
    t.run (es ++ fs) = (((t.run es).1.run fs).1, (t.run es).2 ++ ((t.run es).1.run fs).2) := by
  induction es generalizing t with
  | nil => rfl
  | cons e es ih =>
      have hrest := ih (t.process e).1
      simp only [List.cons_append, run, hrest, List.append_assoc]

theorem run_concat (t : Tracker) (es : List Event) (e : Event) :
    t.run (es ++ [e]) = (((t.run es).1.process e).1,
      (t.run es).2 ++ ((t.run es).1.process e).2) := by
  simp only [run_append, run, List.append_nil]

/-- The nodes of some events have the next ids. -/
theorem run_numbers (t : Tracker) (es : List Event) :
    t.roster.Numbers (t.run es).2 (t.run es).1.roster :=
  (t.run_changes es (.inl trivial)).numbers

/-- The nodes of a first part of the operations have the next ids too. -/
theorem exists_creates_eq {t : Tracker} {es : List Event} {ops : List Op}
    (h : ops <+: (t.run es).2) : ∃ n, ops.flatMap creates = List.range' t.roster.nextId n := by
  obtain ⟨rest, hrest⟩ := h
  obtain ⟨n, hall, _⟩ := t.run_numbers es
  rw [← hrest, List.flatMap_append] at hall
  obtain ⟨k, _, hops, _⟩ := List.range'_eq_append_iff.mp hall.symm
  exact ⟨k, hops⟩

end Tracker

end Lineage

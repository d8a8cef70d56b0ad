import Lineage.Proofs.Tracker.Numbering

/-!
# Retired nodes

An operation names the node that the counter gives next, or the current node of a live process
(`Roster.Change.mentions_cases`).  So a node that was given out and is no longer the current one of
any process is *retired* (`Roster.Retired`): no later step names it or makes it current again
(`Roster.Changes.unmentioned`).

A process that ends leaves all its nodes behind, and a relation to the next incarnation is the last
operation that names the old one (`Roster.Changes.supersedes`).  `Tracker.retired_unmentioned` says
both of events.
-/

namespace Lineage

open Lineage.Audit (Event)
open Lineage.Graph (NodeId Op Uuid)
open Lineage.Graph.Cypher (creates)

namespace Graph.Op

/-- The nodes that an operation names. -/
def mentions : Op → List NodeId
  | .createNode id .. => [id]
  | .createRel src dst _ => [src, dst]
  | .updateNode id .. => [id]

/-- The node that an operation replaces by a next one. -/
def supersedes : Op → List NodeId
  | .createRel src _ .next => [src]
  | _ => []

end Graph.Op

namespace Roster

/-- A node that was given out and is not the current one of any process. -/
structure Retired (r : Roster) (id : NodeId) : Prop where
  lt_nextId : id < r.nextId
  not_live : ∀ uuid, r.find? uuid ≠ some id

variable {shared : Prop} {r r' : Roster} {ops : List Op} {id : NodeId}

/-! ## Steps behind the retirement -/

/-- A retired node does not come back with a new one. -/
theorem Retired.renew (h : r.Retired id) (uuid : Uuid) (cmdline : String) (thin : Bool) :
    (r.renew uuid cmdline thin).1.Retired id where
  lt_nextId := Nat.lt_succ_of_lt h.lt_nextId
  not_live v hv := by
    rw [find?_renew] at hv
    split at hv
    · cases hv
      exact Nat.lt_irrefl _ h.lt_nextId
    · exact h.not_live v hv

theorem Retired.release (h : r.Retired id) (uuid : Uuid) : (r.release uuid).1.Retired id where
  lt_nextId := by
    rw [nextId_release]
    exact h.lt_nextId
  not_live v hv := by
    rw [find?_release] at hv
    split at hv
    · cases hv
    · exact h.not_live v hv

theorem Change.retired (h : Change shared r ops r') (hid : r.Retired id) : r'.Retired id := by
  cases h with
  | appear _ cmdline _ => exact hid.renew _ cmdline true
  | start _ _ _ => exact ⟨hid.lt_nextId, hid.not_live⟩
  | restart _ cmdline _ => exact hid.renew _ cmdline false
  | bear _ cmdline _ _ => exact hid.renew _ cmdline true
  | share _ _ _ _ _ => exact ⟨hid.lt_nextId, hid.not_live⟩
  | leave uuid => exact hid.release uuid

theorem Changes.retired (h : Changes shared r ops r') (hid : r.Retired id) : r'.Retired id := by
  induction h with
  | refl => exact hid
  | snoc _ hnew ih => exact hnew.retired ih

/-- The operations of a step name the next node and current nodes only. -/
theorem Change.mentions_cases (h : Change shared r ops r') {op : Op} (hop : op ∈ ops)
    (hid : id ∈ op.mentions) : id = r.nextId ∨ ∃ uuid, r.find? uuid = some id := by
  cases h with
  | appear _ _ _ =>
      cases List.mem_singleton.mp hop
      exact .inl (List.mem_singleton.mp hid)
  | @start uuid _ _ _ hlive =>
      cases List.mem_singleton.mp hop
      exact .inr ⟨uuid, hlive.trans (congrArg some (List.mem_singleton.mp hid).symm)⟩
  | @restart uuid _ _ _ hlive | @bear uuid _ _ _ _ hlive _ =>
      simp only [List.mem_cons, List.not_mem_nil, or_false] at hop
      rcases hop with rfl | rfl
      · exact .inl (List.mem_singleton.mp hid)
      · simp only [Op.mentions, List.mem_cons, List.not_mem_nil, or_false] at hid
        rcases hid with rfl | rfl
        · exact .inr ⟨uuid, hlive⟩
        · exact .inl rfl
  | @share uuid child _ _ _ _ _ hlive hchild =>
      simp only [List.mem_cons, List.not_mem_nil, or_false] at hop
      rcases hop with rfl | rfl
      · exact .inr ⟨child, hchild.trans (congrArg some (List.mem_singleton.mp hid).symm)⟩
      · simp only [Op.mentions, List.mem_cons, List.not_mem_nil, or_false] at hid
        rcases hid with rfl | rfl
        · exact .inr ⟨uuid, hlive⟩
        · exact .inr ⟨child, hchild⟩
  | leave _ => cases hop

theorem Change.unmentioned (h : Change shared r ops r') (hid : r.Retired id) :
    ∀ op ∈ ops, id ∉ op.mentions := by
  intro op hop hmem
  cases h.mentions_cases hop hmem with
  | inl hnext => exact Nat.ne_of_lt hid.lt_nextId hnext
  | inr hlive =>
      obtain ⟨uuid, hlive⟩ := hlive
      exact hid.not_live uuid hlive

/-- No operation names a retired node. -/
theorem Changes.unmentioned (h : Changes shared r ops r') (hid : r.Retired id) :
    ∀ op ∈ ops, id ∉ op.mentions := by
  induction h with
  | refl => simp
  | snoc h hnew ih =>
      intro op hop
      cases List.mem_append.mp hop with
      | inl hop => exact ih op hop
      | inr hop => exact hnew.unmentioned (h.retired hid) op hop

/-! ## Nodes with a next one -/

/-- The node that a process had is retired when it gets another one. -/
theorem WellFormed.retired_renew (hwf : r.WellFormed) {uuid : Uuid} (hlive : r.find? uuid = some id)
    (cmdline : String) (thin : Bool) : (r.renew uuid cmdline thin).1.Retired id where
  lt_nextId := Nat.lt_succ_of_lt (hwf.lt_nextId hlive)
  not_live v hv := by
    rw [find?_renew] at hv
    split at hv
    · cases hv
      exact Nat.lt_irrefl _ (hwf.lt_nextId hlive)
    · rename_i hne
      exact hne (hwf.injective hv hlive)

/-- A step retires the node that it replaces, and no operation behind it names that node. -/
theorem Change.supersedes (h : Change shared r ops r') (hwf : r.WellFormed) :
    (∀ op ∈ ops, ∀ id ∈ op.supersedes, r'.Retired id) ∧
      ops.Pairwise fun op later => ∀ id ∈ op.supersedes, id ∉ later.mentions := by
  cases h with
  | restart _ cmdline hlive =>
      refine ⟨?_, by simp [Op.supersedes]⟩
      simpa [Op.supersedes] using hwf.retired_renew hlive cmdline false
  | _ => simp [Op.supersedes]

/-- A node with a next one is retired, and the relation to the next one is the last operation that
names it. -/
theorem Changes.supersedes (h : Changes shared r ops r') (hwf : r.WellFormed) :
    (∀ op ∈ ops, ∀ id ∈ op.supersedes, r'.Retired id) ∧
      ops.Pairwise fun op later => ∀ id ∈ op.supersedes, id ∉ later.mentions := by
  induction h with
  | refl => simp
  | snoc h hnew ih =>
      obtain ⟨hretired, hlast⟩ := ih
      obtain ⟨hretired', hlast'⟩ := hnew.supersedes (h.wellFormed hwf)
      refine ⟨fun op hop id hid => ?_, List.pairwise_append.mpr ⟨hlast, hlast', ?_⟩⟩
      · cases List.mem_append.mp hop with
        | inl hop => exact hnew.retired (hretired op hop id hid)
        | inr hop => exact hretired' op hop id hid
      · intro op hop later hlater id hid
        exact hnew.unmentioned (hretired op hop id hid) later hlater

/-! ## Processes that have ended -/

/-- All nodes of a process that is not live are retired. -/
theorem Changes.retired_of_absent (h : Changes shared {} ops r) {uuid : Uuid} {pid : UInt32}
    {cmdline : String} (hmem : Op.createNode id uuid pid cmdline ∈ ops)
    (habsent : r.find? uuid = none) : r.Retired id where
  lt_nextId := h.lt_nextId (mem_creates hmem)
  not_live v hv := by
    obtain ⟨_, _, hmem'⟩ := h.exists_createNode hv
    rw [h.uuid_unique hmem' hmem, habsent] at hv
    cases hv

/-- A process that ends is not live behind the event. -/
theorem find?_step_of_exit (r : Roster) {e : Event} (hkind : e.kind = .exit) :
    (r.step e).1.find? e.subjProcUuid = none := by
  rw [step_eq]
  simp only [act, hkind]
  rw [find?_release, if_pos rfl]

end Roster

/-! ## Events -/

namespace Tracker

/-- An event behind some others retires a node: the node's process ends, or gets a next node. -/
def Retires (before : List Event) (e : Event) (id : NodeId) : Prop :=
  (e.kind = .exit ∧ ∃ pid cmdline,
      Op.createNode id e.subjProcUuid pid cmdline ∈ (({} : Tracker).run (before ++ [e])).2) ∨
    ∃ dst, Op.createRel id dst .next ∈ ((({} : Tracker).run before).1.process e).2

variable {before : List Event} {e : Event} {id : NodeId}

theorem Retires.retired (h : Retires before e id) :
    (({} : Tracker).run (before ++ [e])).1.roster.Retired id := by
  cases h with
  | inl hexit =>
      obtain ⟨hkind, _, _, hmem⟩ := hexit
      refine (({} : Tracker).run_changes (before ++ [e]) (.inl trivial)).retired_of_absent hmem ?_
      rw [run_concat]
      exact Roster.find?_step_of_exit _ hkind
  | inr hnext =>
      obtain ⟨dst, hmem⟩ := hnext
      have hwf := wellFormed_run (t := {}) .new before
      have hstep := (({} : Tracker).run before).1.process_changes e (.inl trivial)
      rw [run_concat]
      exact (hstep.supersedes hwf).1 _ hmem id (List.mem_singleton_self id)

/-- A node that an event retires is never named again, neither by a later event nor by an operation
of the event itself that comes behind the relation to its next node. -/
theorem retired_unmentioned (h : Retires before e id) :
    (∀ first dst rest,
        ((({} : Tracker).run before).1.process e).2 = first ++ .createRel id dst .next :: rest →
          ∀ op ∈ rest, id ∉ op.mentions) ∧
      ∀ after, ∀ op ∈ ((({} : Tracker).run (before ++ [e])).1.run after).2,
        id ∉ op.mentions := by
  constructor
  · intro first dst rest hops op hop
    have hwf := wellFormed_run (t := {}) .new before
    have hstep := (({} : Tracker).run before).1.process_changes e (.inl trivial)
    have hlast := (hstep.supersedes hwf).2
    rw [hops] at hlast
    have hrest := (List.pairwise_cons.mp (List.pairwise_append.mp hlast).2.1).1 op hop
    exact hrest id (List.mem_singleton_self id)
  · intro after
    exact (run_changes _ after (.inl trivial)).unmentioned h.retired

/-- A process starts a program, a child and another program, which retires its first node.  Then it
ends and is sighted again, as the child of its child. -/
theorem retired_unmentioned_restart :
    let execve :=
      fun uuid : Uuid => ({ event := "audit:event:aue_execve:", subjProcUuid := uuid } : Event)
    let fork := fun parent child : Uuid =>
      ({ event := "audit:event:aue_fork:", subjProcUuid := parent, retObjUuid1 := child } : Event)
    let exit : Event := { event := "audit:event:aue_exit:", subjProcUuid := "U1" }
    let before := [execve "U1", fork "U1" "U2"]
    let later := ((({} : Tracker).run (before ++ [execve "U1"])).1.run [exit, fork "U2" "U1"]).2
    Retires before (execve "U1") 0 ∧ Retires (before ++ [execve "U1"]) exit 2 ∧
      later = [.createNode 3 "U1" 0 "", .createRel 1 3 .child] ∧
        ∀ op ∈ later, 0 ∉ op.mentions := by
  intro execve fork exit before later
  have hrestart : Retires before (execve "U1") 0 := .inr ⟨2, by decide⟩
  have hexit : Retires (before ++ [execve "U1"]) exit 2 := .inl ⟨by decide, 0, "", by decide⟩
  exact ⟨hrestart, hexit, by decide, (retired_unmentioned hrestart).2 _⟩

end Tracker

end Lineage

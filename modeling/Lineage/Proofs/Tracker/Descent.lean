import Lineage.Proofs.Graph.Forest
import Lineage.Proofs.Tracker.Liveness
import Lineage.Proofs.Tracker.Sprouts

/-!
# The descent of the nodes

Where every child is new to the roster when it is started, the relations form a forest
(`Tracker.relations_form_forest`).  The node of a child has the relation from its parent and no
other one that leads to it, and the node of a next incarnation has the relation from the node before
it.

A child is new when it is neither live nor its own parent.  Both count: a child that is live may
have a relation that leads to its node already, and one that is its own parent gets a relation from
its node to itself.
-/

namespace Lineage

open Lineage.Audit (Event Started)
open Lineage.Graph (Forest Leads NodeId Op RelClass Uuid mem_relations relations)
open Lineage.Graph.Cypher (creates)

namespace Roster

/-- Where no node is shared, the relations form a forest over the nodes. -/
theorem Changes.forest {r : Roster} {ops : List Op} (h : Changes False {} ops r) :
    Forest (ops.flatMap creates) (relations ops) := by
  have hends : ∀ ρ ∈ relations ops, ρ.src < ρ.dst ∧ ρ.src ∈ ops.flatMap creates ∧
      ρ.dst ∈ ops.flatMap creates := by
    intro ρ hρ
    obtain ⟨before, after, hops⟩ := List.append_of_mem (mem_relations.mp hρ)
    obtain ⟨hup, first, uuid, pid, cmdline, hbefore, parent, pid', cmdline', hsrc, _⟩ :=
      h.sprout hops (.inr not_false)
    have hsrc' : Op.createNode ρ.src parent pid' cmdline' ∈ ops := by simp [hops, hbefore, hsrc]
    have hdst : Op.createNode ρ.dst uuid pid cmdline ∈ ops := by simp [hops, hbefore]
    exact ⟨hup, mem_creates hsrc', mem_creates hdst⟩
  have hascending := h.pairwise_dst (p := fun _ => true) fun _ _ => .inr not_false
  rw [List.filter_true] at hascending
  exact {
    src_mem := fun ρ hρ => (hends ρ hρ).2.1
    dst_mem := fun ρ hρ => (hends ρ hρ).2.2
    src_lt_dst := fun ρ hρ => (hends ρ hρ).1
    nodup_dst := hascending.imp Nat.ne_of_lt }

variable {r : Roster} {e : Event}

/-- A child that is new to the roster gets a node and the relation from its parent. -/
theorem step_of_startsChild (hchild : e.StartsChild) (hfresh : r.FreshChild e) :
    let a := r.announce e.subjProcUuid e.pid e.exec
    (r.step e).2 = a.2.2 ++
      [.createNode a.1.nextId e.retObjUuid1 e.retval (a.1.cmdlineAt a.2.1),
        .createRel a.2.1 a.1.nextId .child] := by
  intro a
  obtain ⟨habsent, hne⟩ := hfresh hchild
  have habsent' : a.1.find? e.retObjUuid1 = none := by rw [find?_announce_ne r hne, habsent]
  have hact : a.1.act a.2.1 e = a.1.startChild a.2.1 e := by
    cases hchild with
    | inl hkind => simp only [act, hkind]
    | inr hkind => simp only [act, hkind]
  have hstep : (r.step e).2 = a.2.2 ++ (a.1.act a.2.1 e).2 := by rw [step_eq]
  rw [hstep, hact, startChild_of_absent habsent']

/-- A live process that starts another program gets a node and the relation from the one before. -/
theorem step_of_restart {id : NodeId} {i : Incarnation} (hkind : e.kind = .execve)
    (hlive : r.find? e.subjProcUuid = some id) (hget : r.get? id = some i)
    (hthin : i.thin = false) :
    (r.step e).2 =
      [.createNode r.nextId e.subjProcUuid e.pid e.cmdline, .createRel id r.nextId .next] := by
  rw [step_eq, announce_of_live hlive]
  simp only [act, hkind, startProgram_of_started hget hthin, List.nil_append]

end Roster

namespace Tracker

theorem FreshChildren.append {t : Tracker} {before after : List Event}
    (h : t.FreshChildren (before ++ after)) : (t.run before).1.FreshChildren after := by
  induction before generalizing t with
  | nil => exact h
  | cons e before ih => exact ih h.2

/-- The relations of one of the events are among all of them. -/
theorem mem_relations_run {before after : List Event} {e : Event} {src dst : NodeId}
    {cls : RelClass}
    (h : Op.createRel src dst cls ∈ ((({} : Tracker).run before).1.process e).2) :
    ⟨src, dst, cls⟩ ∈ relations (({} : Tracker).run (before ++ e :: after)).2 := by
  refine mem_relations.mpr ?_
  rw [run_append]
  exact List.mem_append_right _ (List.mem_append_left _ h)

/-- Where every child is new to the roster when it is started, the relations form a forest over the
nodes.  No way along them comes back, not even one that takes them backwards.  The node of a child
has one relation that leads to it, from its parent, and the node that a process gets when it starts
another program has one, from the node before it. -/
theorem relations_form_forest {es : List Event} (hfresh : ({} : Tracker).FreshChildren es) :
    let ops := (({} : Tracker).run es).2
    Forest (ops.flatMap creates) (relations ops) ∧
      (∀ id, ¬ Relation.TransGen (Leads (relations ops)) id id) ∧
      (SimpleGraph.fromRel (Leads (relations ops))).IsAcyclic ∧
      ∀ before e after, es = before ++ e :: after →
        let t := (({} : Tracker).run before).1
        (e.StartsChild → ∃ src child cmdline,
          (t.process e).2 = (t.roster.announce e.subjProcUuid e.pid e.exec).2.2 ++
            [.createNode child e.retObjUuid1 e.retval cmdline, .createRel src child .child] ∧
          (relations ops).filter (·.dst = child) = [⟨src, child, .child⟩]) ∧
        (e.kind = .execve ∧ Started before e.subjProcUuid → ∃ src next,
          (t.process e).2 =
            [.createNode next e.subjProcUuid e.pid e.cmdline, .createRel src next .next] ∧
          (relations ops).filter (·.dst = next) = [⟨src, next, .next⟩]) := by
  intro ops
  have hforest := (({} : Tracker).run_changes es (.inr hfresh)).forest
  refine ⟨hforest, hforest.not_leads_back, hforest.isAcyclic, fun before e after hes => ?_⟩
  subst hes
  intro t
  constructor
  · intro hchild
    have hops := Roster.step_of_startsChild hchild hfresh.append.1
    refine ⟨_, _, _, hops, hforest.filter_dst (mem_relations_run ?_)⟩
    rw [process, hops]
    simp
  · rintro ⟨hkind, hstarted⟩
    obtain ⟨src, i, hlive, hget, hthin⟩ := (exists_started_iff before _).mpr hstarted
    have hops := Roster.step_of_restart hkind hlive hget hthin
    refine ⟨_, _, hops, hforest.filter_dst (mem_relations_run ?_)⟩
    rw [process, hops]
    simp

/-- A process starts a child, and the child starts two programs and a child of its own, which ends.
Another child with the same UUID is new to the roster then, and has a node of its own. -/
theorem relations_form_forest_of_four :
    let execve : Event := { event := "audit:event:aue_execve:", subjProcUuid := "U2" }
    let fork := fun parent child : Uuid =>
      ({ event := "audit:event:aue_fork:", subjProcUuid := parent, retObjUuid1 := child } : Event)
    let exit : Event := { event := "audit:event:aue_exit:", subjProcUuid := "U3" }
    let before := [fork "U1" "U2", execve, execve, fork "U2" "U3", exit]
    let es := before ++ [fork "U2" "U3"]
    let ops := (({} : Tracker).run es).2
    ({} : Tracker).FreshChildren es ∧
      relations ops = [⟨0, 1, .child⟩, ⟨1, 2, .next⟩, ⟨2, 3, .child⟩,
        ⟨2, 4, .child⟩] ∧
      Forest [0, 1, 2, 3, 4] (relations ops) ∧
      ¬ Relation.TransGen (Leads (relations ops)) 2 2 ∧
      ((({} : Tracker).run before).1.process (fork "U2" "U3")).2 =
        [.createNode 4 "U3" 0 "", .createRel 2 4 .child] ∧
      (relations ops).filter (·.dst = 4) = [⟨2, 4, .child⟩] := by
  intro execve fork exit before es ops
  have hfresh : ({} : Tracker).FreshChildren es := by decide
  have hops : ((({} : Tracker).run before).1.process (fork "U2" "U3")).2 =
      [.createNode 4 "U3" 0 "", .createRel 2 4 .child] := by decide
  obtain ⟨hforest, hback, _, hevents⟩ := relations_form_forest hfresh
  refine ⟨hfresh, by decide, hforest, hback 2, hops, ?_⟩
  obtain ⟨src, child, cmdline, hops', hsingle⟩ :=
    (hevents before (fork "U2" "U3") [] rfl).1 (by decide)
  rw [hops] at hops'
  cases hops'
  exact hsingle

end Tracker

end Lineage

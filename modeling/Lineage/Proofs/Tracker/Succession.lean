import Lineage.Proofs.Graph.Paths
import Lineage.Proofs.Tracker.Sprouts

/-!
# The incarnations of a process

The relations to next incarnations lead from one node of a process to the next one.  No node has two
of them in front of it or behind it, so they form paths, each with the nodes of one process
(`Tracker.next_relations_form_paths`).  The path of a process ends when the process ends, and
another one may begin when it is sighted again.
-/

namespace Lineage.Tracker

open Lineage.Audit (Event)
open Lineage.Graph (FormsPaths NodeId Op Relation Uuid exists_common exists_formsPaths mem_relations
  pathRelations relations)

variable {shared : Prop} {r : Roster} {ops : List Op}

/-- A relation to a next incarnation leads upwards, between two nodes of the same process. -/
theorem next_ends (h : Roster.Changes shared {} ops r) {ρ : Relation} (hρ : ρ ∈ relations ops)
    (hcls : ρ.cls = .next) :
    ρ.src < ρ.dst ∧
      ∃ uuid, (∃ pid cmdline, Op.createNode ρ.src uuid pid cmdline ∈ ops) ∧
      ∃ pid cmdline, Op.createNode ρ.dst uuid pid cmdline ∈ ops := by
  obtain ⟨before, after, hops⟩ := List.append_of_mem (mem_relations.mp hρ)
  obtain ⟨hup, first, uuid, pid, cmdline, hbefore, parent, pid', cmdline', hcreated, hparent⟩ :=
    h.sprout hops (.inl hcls)
  obtain rfl := hparent hcls
  refine ⟨hup, parent, ⟨pid', cmdline', ?_⟩, ⟨pid, cmdline, ?_⟩⟩
  · simp [hops, hbefore, hcreated]
  · simp [hops, hbefore]

/-- The relations to next incarnations form paths, each with the nodes of one process. -/
theorem exists_next_paths (h : Roster.Changes shared {} ops r) :
    ∃ paths, FormsPaths .next ((relations ops).filter (·.cls = .next)) paths ∧
      ∀ path ∈ paths, ∃ uuid, ∀ id ∈ path, ∃ pid cmdline,
        Op.createNode id uuid pid cmdline ∈ ops := by
  have hnexts : ∀ ρ ∈ (relations ops).filter (·.cls = .next), ρ ∈ relations ops ∧
      ρ.cls = .next := by
    intro ρ hρ
    obtain ⟨hmem, hcls⟩ := List.mem_filter.mp hρ
    exact ⟨hmem, of_decide_eq_true hcls⟩
  obtain ⟨paths, hpaths⟩ := exists_formsPaths (fun ρ hρ => (hnexts ρ hρ).2)
    (fun ρ hρ => (next_ends h (hnexts ρ hρ).1 (hnexts ρ hρ).2).1) (h.nodup_src .new)
    (h.pairwise_dst fun _ hcls => .inl (of_decide_eq_true hcls))
  refine ⟨paths, hpaths, fun path hpath => ?_⟩
  have hends : ∀ ρ ∈ pathRelations .next path, ∃ uuid,
      (∃ pid cmdline, Op.createNode ρ.src uuid pid cmdline ∈ ops) ∧
        ∃ pid cmdline, Op.createNode ρ.dst uuid pid cmdline ∈ ops := by
    intro ρ hρ
    have hmem := hpaths.perm.mem_iff.mpr (List.mem_flatMap.mpr ⟨path, hpath, hρ⟩)
    exact (next_ends h (hnexts ρ hmem).1 (hnexts ρ hmem).2).2
  refine exists_common (P := fun uuid id => ∃ pid cmdline,
    Op.createNode id uuid pid cmdline ∈ ops)
    ?_ (hpaths.two_le_length path hpath) hends
  rintro uuid uuid' id ⟨_, _, hmem⟩ ⟨_, _, hmem'⟩
  exact h.uuid_unique hmem hmem'

/-- Each relation to a next incarnation comes directly behind the creation of the node it leads to,
and starts from an earlier node of the same process.  No node is at the start of two such relations
or at the end of two, so they form paths, each with the nodes of one process. -/
theorem next_relations_form_paths (es : List Event) :
    let ops := (({} : Tracker).run es).2
    let nexts := (relations ops).filter (·.cls = .next)
    (∀ before src dst after, ops = before ++ .createRel src dst .next :: after →
      src < dst ∧ ∃ first uuid pid cmdline,
        before = first ++ [.createNode dst uuid pid cmdline] ∧
        ∃ pid' cmdline', Op.createNode src uuid pid' cmdline' ∈ first) ∧
      (nexts.map Relation.src).Nodup ∧ (nexts.map Relation.dst).Nodup ∧
      ∃ paths, FormsPaths .next nexts paths ∧
        ∀ path ∈ paths, ∃ uuid, ∀ id ∈ path, ∃ pid cmdline,
          Op.createNode id uuid pid cmdline ∈ ops := by
  intro ops nexts
  have h := ({} : Tracker).run_changes es (.inl trivial)
  refine ⟨?_, h.nodup_src .new, ?_, exists_next_paths h⟩
  · intro before src dst after hops
    obtain ⟨hup, first, uuid, pid, cmdline, hbefore, parent, pid', cmdline',
        hcreated, hparent⟩ :=
      h.sprout hops (.inl rfl)
    exact ⟨hup, first, uuid, pid, cmdline, hbefore, pid', cmdline', hparent rfl ▸ hcreated⟩
  · have hascending :=
      h.pairwise_dst (p := (·.cls = .next)) fun _ hcls => .inl (of_decide_eq_true hcls)
    exact hascending.imp Nat.ne_of_lt

/-- A process starts three programs, and another one takes it as its child in between.  It ends, and
starts two more programs when it is sighted again.  The relations form two paths. -/
theorem next_relations_form_paths_twice :
    let execve :=
      fun uuid : Uuid => ({ event := "audit:event:aue_execve:", subjProcUuid := uuid } : Event)
    let exit : Event := { event := "audit:event:aue_exit:", subjProcUuid := "U1" }
    let fork : Event :=
      { event := "audit:event:aue_fork:", subjProcUuid := "U2", retObjUuid1 := "U1", retval := 7 }
    let ops := (({} : Tracker).run
      [execve "U1", execve "U1", fork, execve "U1", exit, execve "U1", execve "U1"]).2
    let before := ops.take 8
    (relations ops).filter (·.cls = .next) =
      [⟨0, 1, .next⟩, ⟨1, 3, .next⟩, ⟨4, 5, .next⟩] ∧
      ops = before ++ .createRel 1 3 .next :: ops.drop 9 ∧
      ∃ first uuid pid cmdline, before = first ++ [.createNode 3 uuid pid cmdline] ∧
        ∃ pid' cmdline', Op.createNode 1 uuid pid' cmdline' ∈ first := by
  intro execve exit fork ops before
  have hops : ops = before ++ .createRel 1 3 .next :: ops.drop 9 := by decide
  obtain ⟨hbehind, _⟩ := next_relations_form_paths
    [execve "U1", execve "U1", fork, execve "U1", exit, execve "U1", execve "U1"]
  exact ⟨by decide, hops, (hbehind _ _ _ _ hops).2⟩

end Lineage.Tracker

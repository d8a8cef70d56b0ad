import Mathlib.Combinatorics.SimpleGraph.Acyclic
import Lineage.Graph.Store

/-!
# Relations that form a forest

Relations between some nodes form a *forest* when each leads from an older node to a newer one, and
no two lead to the same node (`Forest`).  Then no way along the relations comes back to where it
began (`Forest.not_leads_back`), and neither does one that may take them backwards too
(`Forest.isAcyclic`): the newest node on such a way would have two relations that lead to it.
-/

namespace Lineage.Graph

/-- One of the relations leads from the first node to the second one. -/
def Leads (relations : List Relation) (src dst : NodeId) : Prop :=
  ∃ cls, ⟨src, dst, cls⟩ ∈ relations

/-- The relations lead between the nodes, each from an older one to a newer one, and no two to the
same one. -/
structure Forest (nodes : List NodeId) (relations : List Relation) : Prop where
  src_mem : ∀ ρ ∈ relations, ρ.src ∈ nodes
  dst_mem : ∀ ρ ∈ relations, ρ.dst ∈ nodes
  src_lt_dst : ∀ ρ ∈ relations, ρ.src < ρ.dst
  nodup_dst : (relations.map Relation.dst).Nodup

namespace Forest

variable {nodes : List NodeId} {relations : List Relation}

theorem lt_of_leads (h : Forest nodes relations) {src dst : NodeId}
    (hleads : Leads relations src dst) :
    src < dst := by
  obtain ⟨cls, hρ⟩ := hleads
  exact h.src_lt_dst _ hρ

/-- A relation is the only one that leads to its node. -/
theorem filter_dst (h : Forest nodes relations) {ρ : Relation} (hρ : ρ ∈ relations) :
    relations.filter (·.dst = ρ.dst) = [ρ] := by
  obtain ⟨before, after, rfl⟩ := List.append_of_mem hρ
  have hnodup := h.nodup_dst
  rw [List.map_append, List.map_cons, List.nodup_middle, List.nodup_cons, List.mem_append] at hnodup
  obtain ⟨hbefore, hafter⟩ := not_or.mp hnodup.1
  have hout : ∀ {ρs : List Relation}, ρ.dst ∉ ρs.map Relation.dst →
      ρs.filter (·.dst = ρ.dst) = [] :=
    fun hρs => List.filter_eq_nil_iff.mpr fun σ hσ heq =>
      hρs (of_decide_eq_true heq ▸ List.mem_map_of_mem hσ)
  rw [List.filter_append, hout hbefore, List.nil_append, List.filter_cons, hout hafter,
    if_pos (decide_eq_true rfl)]

theorem eq_of_leads (h : Forest nodes relations) {src src' dst : NodeId}
    (hleads : Leads relations src dst) (hleads' : Leads relations src' dst) : src = src' := by
  obtain ⟨cls, hρ⟩ := hleads
  obtain ⟨cls', hρ'⟩ := hleads'
  exact congrArg Relation.src (List.inj_on_of_nodup_map h.nodup_dst hρ hρ' rfl)

/-- No way along the relations comes back. -/
theorem not_leads_back (h : Forest nodes relations) (id : NodeId) :
    ¬ Relation.TransGen (Leads relations) id id := by
  have hup : ∀ {dst}, Relation.TransGen (Leads relations) id dst → id < dst := fun hway => by
    induction hway with
    | single hleads => exact h.lt_of_leads hleads
    | tail _ hleads ih => exact ih.trans (h.lt_of_leads hleads)
  exact fun hback => Nat.lt_irrefl id (hup hback)

/-- No way that takes each relation at most once, forwards or backwards, comes back. -/
theorem isAcyclic (h : Forest nodes relations) :
    (SimpleGraph.fromRel (Leads relations)).IsAcyclic := by
  intro id cycle hcycle
  -- Both neighbours of the newest node on the way are older, so two relations lead to it.
  obtain ⟨newest, hmem, hnewest⟩ :=
    cycle.support.toFinset.exists_max_image (fun id => id) ⟨id, by simp⟩
  have hmem : newest ∈ cycle.support := List.mem_toFinset.mp hmem
  have hturned := hcycle.rotate hmem
  have hfrom : ∀ v ∈ (cycle.rotate newest hmem).support,
      (SimpleGraph.fromRel (Leads relations)).Adj newest v → Leads relations v newest := by
    intro v hv hadj
    refine ((SimpleGraph.fromRel_adj ..).mp hadj).2.resolve_left fun hup => ?_
    have hmem' : v ∈ cycle.support := (cycle.mem_support_rotate_iff newest hmem).mp hv
    exact Nat.not_lt.mpr (hnewest v (List.mem_toFinset.mpr hmem')) (h.lt_of_leads hup)
  refine hturned.snd_ne_penultimate (h.eq_of_leads (hfrom _ ?_ ?_) (hfrom _ ?_ ?_))
  · exact SimpleGraph.Walk.getVert_mem_support ..
  · exact SimpleGraph.Walk.adj_snd hturned.not_nil
  · exact SimpleGraph.Walk.getVert_mem_support ..
  · exact (SimpleGraph.Walk.adj_penultimate hturned.not_nil).symm

end Forest

end Lineage.Graph

import Lineage.Graph.Store
import Lineage.Proofs.Tracker.Retirement

/-!
# Relations to new nodes

A relation to a next incarnation leads to a node that is created for it, and so does a relation to a
child that was not live.  Such a relation is emitted directly behind the creation of its node
(`Roster.Changes.sprout`), and the node has a greater id than all that were there before.  So these
relations lead to nodes with ascending ids, each to its own (`Roster.Changes.pairwise_dst`).

No two relations to a next incarnation start from the same node (`Roster.Changes.nodup_src`),
because the first one retires it.
-/

namespace Lineage

open Lineage.Graph (NodeId Op RelClass Relation Uuid)
open Lineage.Graph.Cypher (creates)

namespace Graph

/-- The relation that an operation adds. -/
def Op.relation? : Op → Option Relation
  | .createRel src dst cls => some ⟨src, dst, cls⟩
  | _ => none

/-- The relations that some operations add, in order. -/
def relations (ops : List Op) : List Relation := ops.filterMap Op.relation?

theorem Op.relation?_eq_some_iff {op : Op} {ρ : Relation} :
    op.relation? = some ρ ↔ op = .createRel ρ.src ρ.dst ρ.cls := by
  cases op with
  | createRel src dst cls =>
      obtain ⟨src', dst', cls'⟩ := ρ
      simp [Op.relation?]
  | createNode => simp [Op.relation?]
  | updateNode => simp [Op.relation?]

theorem relations_append (ops ops' : List Op) :
    relations (ops ++ ops') = relations ops ++ relations ops' :=
  List.filterMap_append

theorem mem_relations {ops : List Op} {ρ : Relation} :
    ρ ∈ relations ops ↔ Op.createRel ρ.src ρ.dst ρ.cls ∈ ops := by
  simp only [relations, List.mem_filterMap, Op.relation?_eq_some_iff, exists_eq_right]

end Graph

open Lineage.Graph (relations relations_append mem_relations)

/-- An element of two lists is in the first one, or behind it in the second one. -/
theorem append_eq_append_cons {α : Type} {xs ys before after : List α} {a : α}
    (h : xs ++ ys = before ++ a :: after) :
    (∃ mid, xs = before ++ a :: mid) ∨ ∃ mid, before = xs ++ mid ∧
      ys = mid ++ a :: after := by
  rcases List.append_eq_append_iff.mp h with ⟨mid, hbefore, hys⟩ | ⟨mid, hxs, hrest⟩
  · exact .inr ⟨mid, hbefore, hys⟩
  · cases mid with
    | nil => exact .inr ⟨[], by simp [hxs], hrest.symm⟩
    | cons x mid =>
        cases hrest
        exact .inl ⟨mid, hxs⟩

namespace Roster

variable {shared : Prop} {r r' : Roster} {ops : List Op}

/-- A step that adds a relation to a new node creates the node, and then the relation from the
current node of a live process. -/
theorem Change.sprout (h : Change shared r ops r') {src dst : NodeId} {cls : RelClass}
    (hmem : Op.createRel src dst cls ∈ ops) (hcls : cls = .next ∨ ¬ shared) :
    dst = r.nextId ∧ ∃ uuid pid cmdline parent,
      ops = [.createNode dst uuid pid cmdline, .createRel src dst cls] ∧
        r.find? parent = some src ∧ (cls = .next → parent = uuid) := by
  cases h with
  | appear _ _ _ => cases List.mem_singleton.mp hmem
  | start _ _ _ => cases List.mem_singleton.mp hmem
  | @restart uuid _ pid cmdline hlive =>
      simp only [List.mem_cons, List.not_mem_nil, or_false, reduceCtorEq, false_or] at hmem
      cases hmem
      exact ⟨rfl, uuid, pid, cmdline, uuid, rfl, hlive, fun _ => rfl⟩
  | @bear uuid child _ pid cmdline hlive _ =>
      simp only [List.mem_cons, List.not_mem_nil, or_false, reduceCtorEq, false_or] at hmem
      cases hmem
      exact ⟨rfl, child, pid, cmdline, uuid, rfl, hlive, nofun⟩
  | share _ _ hshared _ _ =>
      simp only [List.mem_cons, List.not_mem_nil, or_false, reduceCtorEq, false_or] at hmem
      cases hmem
      cases hcls with
      | inl hnext => cases hnext
      | inr hfresh => exact absurd hshared hfresh
  | leave _ => cases hmem

/-- A relation to a new node comes directly behind the creation of the node.  The node that it
starts from was created before, for the same process if the relation leads to its next
incarnation. -/
theorem Changes.sprout (h : Changes shared {} ops r) {before after : List Op} {src dst : NodeId}
    {cls : RelClass} (hops : ops = before ++ .createRel src dst cls :: after)
    (hcls : cls = .next ∨ ¬ shared) :
    src < dst ∧ ∃ first uuid pid cmdline,
      before = first ++ [.createNode dst uuid pid cmdline] ∧
      ∃ parent pid' cmdline', Op.createNode src parent pid' cmdline' ∈ first ∧
        (cls = .next → parent = uuid) := by
  induction h generalizing before after with
  | refl => simp at hops
  | @snoc r' _ ops new h hnew ih =>
      rcases append_eq_append_cons hops with ⟨mid, hold⟩ | ⟨mid, rfl, hlast⟩
      · exact ih hold
      · have hmem : Op.createRel src dst cls ∈ new := by simp [hlast]
        obtain ⟨rfl, uuid, pid, cmdline, parent, hlist, hlive, hparent⟩ := hnew.sprout hmem hcls
        obtain ⟨pid', cmdline', hcreated⟩ := h.exists_createNode hlive
        have hmid : mid = [.createNode r'.nextId uuid pid cmdline] := by
          rw [hlist] at hlast
          match mid with
          | [] => cases hlast
          | [_] => cases hlast; rfl
          | _ :: _ :: _ => simp at hlast
        exact ⟨h.lt_nextId (mem_creates hcreated), ops, uuid, pid,
          cmdline, by rw [hmid], parent, pid', cmdline', hcreated, hparent⟩

/-! ## The ends of the relations -/

variable {p : Relation → Bool}

theorem Change.dst_sublist (h : Change shared r ops r')
    (hp : ∀ ρ, p ρ = true → ρ.cls = .next ∨ ¬ shared) :
    (((relations ops).filter p).map Relation.dst).Sublist (ops.flatMap creates) := by
  cases h with
  | @restart _ id _ _ _ | @bear _ _ id _ _ _ _ =>
      exact List.filter_sublist.map Relation.dst
  | @share _ _ id id' _ _ hshared _ _ =>
      have hout : p ⟨id, id', .child⟩ = false := by
        refine Bool.eq_false_iff.mpr fun hin => ?_
        cases hp _ hin with
        | inl hnext => cases hnext
        | inr hfresh => exact hfresh hshared
      simp only [relations, List.filterMap, Op.relation?, List.filter, hout]
      exact List.nil_sublist _
  | _ => exact List.nil_sublist _

/-- Relations to new nodes lead to them in the order in which they are created, each to its own. -/
theorem Changes.dst_sublist (h : Changes shared r ops r')
    (hp : ∀ ρ, p ρ = true → ρ.cls = .next ∨ ¬ shared) :
    (((relations ops).filter p).map Relation.dst).Sublist (ops.flatMap creates) := by
  induction h with
  | refl => exact List.nil_sublist _
  | snoc _ hnew ih =>
      rw [relations_append, List.filter_append, List.map_append, List.flatMap_append]
      exact ih.append (hnew.dst_sublist hp)

theorem Changes.pairwise_dst (h : Changes shared {} ops r)
    (hp : ∀ ρ, p ρ = true → ρ.cls = .next ∨ ¬ shared) :
    (((relations ops).filter p).map Relation.dst).Pairwise (· < ·) := by
  have hsublist := h.dst_sublist hp
  rw [h.creates_eq] at hsublist
  exact List.pairwise_lt_range.sublist hsublist

/-- No two relations to a next incarnation start from the same node. -/
theorem Changes.nodup_src (h : Changes shared r ops r') (hwf : r.WellFormed) :
    (((relations ops).filter (·.cls = .next)).map Relation.src).Nodup := by
  rw [List.Nodup, List.pairwise_map, List.pairwise_filter, relations, List.pairwise_filterMap]
  refine (h.supersedes hwf).2.imp ?_
  intro op later hlast ρ hρ ρ' hρ' hcls _ heq
  obtain rfl := Op.relation?_eq_some_iff.mp hρ
  obtain rfl := Op.relation?_eq_some_iff.mp hρ'
  rw [of_decide_eq_true hcls] at hlast
  exact hlast ρ.src (List.mem_singleton_self _) (heq ▸ List.mem_cons_self ..)

end Roster

end Lineage

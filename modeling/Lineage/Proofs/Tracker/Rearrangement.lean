import Mathlib.Logic.Equiv.Defs
import Lineage.Proofs.Tracker.Coherence
import Lineage.Proofs.Tracker.Naming

/-!
# Rearranged events

Only the order of events that touch a common process matters.  Two orders of the same events that
agree on it give the same graph and the same roster, but for the ids of the nodes
(`rearranged_graphs`).

The ids of the two runs are matched by the names of their nodes.  Both runs name the same nodes,
each in the order of its own ids, so the place of a name in one list goes with its place in the
other (`rename`).
-/

namespace Lineage

open Lineage.Audit (Event Rearranges)
open Lineage.Graph (Memory Node NodeId Op Relation Uuid)

/-! ## From one list of names to another -/

namespace Chronicle

/-- The id in the second list of the node with an id in the first one. -/
def renameId (names names' : List Name) (id : NodeId) : NodeId :=
  match names[id]? with
  | some name => names'.idxOf name
  | none => id

variable {names names' : List Name}

theorem renameId_idxOf {name : Name} (h : name ∈ names) :
    renameId names names' (names.idxOf name) = names'.idxOf name := by
  rw [renameId, List.getElem?_idxOf h]

theorem renameId_renameId (hnodup : names.Nodup) (hperm : names.Perm names') (id : NodeId) :
    renameId names' names (renameId names names' id) = id := by
  cases hname : names[id]? with
  | some name =>
      obtain ⟨hlt, rfl⟩ := List.getElem?_eq_some_iff.mp hname
      have hmem : names[id] ∈ names' := hperm.mem_iff.mp (List.getElem_mem hlt)
      have hplace : renameId names names' id = names'.idxOf names[id] := by
        rw [renameId, hname]
      rw [hplace, renameId_idxOf hmem, hnodup.idxOf_getElem]
  | none =>
      have hnone : names'[id]? = none := by
        rw [List.getElem?_eq_none_iff] at hname ⊢
        rwa [← hperm.length_eq]
      have hfixed : renameId names names' id = id := by
        rw [renameId, hname]
      rw [hfixed, renameId, hnone]

/-- The renaming of ids that takes one list of names to another. -/
def rename (hnodup : names.Nodup) (hnodup' : names'.Nodup) (hperm : names.Perm names') :
    Equiv.Perm NodeId where
  toFun := renameId names names'
  invFun := renameId names' names
  left_inv := renameId_renameId hnodup hperm
  right_inv := renameId_renameId hnodup' hperm.symm

/-! ## Two runs with the same chronicle -/

section Two

variable {k k' : Chronicle} {r r' : Roster} {m m' : Memory}

/-- Chronicles with the same careers name the same nodes. -/
theorem Tells.names_perm (h : Tells names k r m) (h' : Tells names' k' r' m') (hsame : Same k k') :
    names.Perm names' := by
  refine (List.perm_ext_iff_of_nodup h.nodup h'.nodup).mpr fun name => ?_
  obtain ⟨uuid, n⟩ := name
  rw [h.mem_iff, h'.mem_iff, hsame.career]

theorem Tells.find?_renameId (h : Tells names k r m) (h' : Tells names' k' r' m')
    (hsame : Same k k') (uuid : Uuid) :
    r'.find? uuid = (r.find? uuid).map (renameId names names') := by
  have hcurrent : k'.current uuid = k.current uuid := by
    rw [current, current, hsame.career]
  rw [h'.find?_eq, h.find?_eq, ← hsame.career, hcurrent]
  cases hlive : (k.career uuid).live with
  | none => rfl
  | some thin => exact congrArg some (renameId_idxOf (h.current_mem hlive)).symm

theorem Tells.current?_renameId (h : Tells names k r m) (h' : Tells names' k' r' m')
    (hsame : Same k k') (uuid : Uuid) :
    r'.current? uuid =
      (r.current? uuid).map fun i => { i with id := renameId names names' i.id } := by
  rw [Roster.current?, Roster.current?, h.find?_renameId h' hsame]
  cases hfind : r.find? uuid with
  | none => rfl
  | some id =>
      obtain ⟨rfl, hmem, thin, hlive, hget⟩ := h.live hfind
      have hlive' : (k'.career uuid).live = some thin := by rw [← hsame.career, hlive]
      have hcurrent : k'.current uuid = k.current uuid := by
        rw [current, current, hsame.career]
      have hget' := h'.get?_eq hlive'
      rw [hcurrent, ← hsame.career] at hget'
      rw [Option.map_some, Option.bind_some, Option.bind_some, hget, renameId_idxOf hmem, hget',
        Option.map_some, renameId_idxOf hmem]

theorem Tells.node_renameId (h : Tells names k r m) (h' : Tells names' k' r' m') (hsame : Same k k')
    (id : NodeId) :
    m'.nodes.get? (renameId names names' id) =
      (m.nodes.get? id).map fun p => { p with id := renameId names names' p.id } := by
  have hperm := h.names_perm h' hsame
  rw [h'.node_eq, h.node_eq]
  cases hname : names[id]? with
  | some name =>
      have hmem : name ∈ names' := hperm.mem_iff.mp (List.mem_of_getElem? hname)
      have hplace : renameId names names' id = names'.idxOf name := by
        rw [renameId, hname]
      rw [hplace, List.getElem?_idxOf hmem, Option.bind_some, Option.bind_some, hsame.career]
      cases (k'.career name.1).nodes[name.2]? with
      | none => rfl
      | some node => simp only [Option.map_some, hplace]
  | none =>
      have hnone : names'[renameId names names' id]? = none := by
        rw [renameId, hname]
        rw [List.getElem?_eq_none_iff] at hname ⊢
        rwa [← hperm.length_eq]
      rw [hnone]
      rfl

theorem Tells.relations_perm (h : Tells names k r m) (h' : Tells names' k' r' m')
    (hsame : Same k k') :
    m'.relations.Perm (m.relations.map fun ρ =>
      ⟨renameId names names' ρ.src, renameId names names' ρ.dst, ρ.cls⟩) := by
  have hrenamed : (m.relations.map fun ρ =>
      (⟨renameId names names' ρ.src, renameId names names' ρ.dst, ρ.cls⟩ : Relation)) =
        k.links.map (relation names') := by
    rw [h.relations_eq, List.map_map]
    refine List.map_congr_left fun l hl => ?_
    obtain ⟨hsrc, hdst⟩ := h.ends_mem l hl
    rw [Function.comp, relation, renameId_idxOf hsrc, renameId_idxOf hdst, relation]
  rw [h'.relations_eq, hrenamed]
  exact (hsame.links.map _).symm

end Two

end Chronicle

/-! ## Two orders of the same events -/

namespace Tracker

/-- The operations of a new tracker, replayed into the empty graph, and its roster tell the
chronicle of the events. -/
theorem exists_tells (es : List Event) :
    ∃ g names, ({} : Memory).applyAll (({} : Tracker).run es).2 = .ok g ∧
      Chronicle.Tells names (({} : Chronicle).run es) (({} : Tracker).run es).1.roster g := by
  obtain ⟨g, hg, _⟩ := run_coherent (t := {}) (.new {}) .new es
  obtain ⟨names, htells⟩ := Chronicle.Tells.run (t := {}) .new es
  rw [Memory.foldl_effect_of_applyAll hg] at htells
  exact ⟨g, names, hg, htells⟩

/-- Rearranged events give graphs that differ in nothing but the ids of their nodes and the order of
their relations.  The same processes are live behind them, with nodes that correspond. -/
theorem rearranged_graphs {es es' : List Event} (h : Rearranges es es') :
    ∃ (g g' : Memory) (rename : Equiv.Perm NodeId),
      ({} : Memory).applyAll (({} : Tracker).run es).2 = .ok g ∧
      ({} : Memory).applyAll (({} : Tracker).run es').2 = .ok g' ∧
      (∀ id, g'.nodes.get? (rename id) =
        (g.nodes.get? id).map fun p => { p with id := rename p.id }) ∧
      g'.relations.Perm (g.relations.map fun ρ => ⟨rename ρ.src, rename ρ.dst, ρ.cls⟩) ∧
      (∀ uuid, (({} : Tracker).run es').1.roster.find? uuid =
        ((({} : Tracker).run es).1.roster.find? uuid).map rename) ∧
      (∀ uuid, (({} : Tracker).run es').1.roster.current? uuid =
        ((({} : Tracker).run es).1.roster.current? uuid).map fun i =>
          { i with id := rename i.id }) := by
  obtain ⟨g, names, hg, htells⟩ := exists_tells es
  obtain ⟨g', names', hg', htells'⟩ := exists_tells es'
  obtain ⟨hcareer, hlinks⟩ := Chronicle.run_rearranged h {}
  have hsame : Chronicle.Same (({} : Chronicle).run es) (({} : Chronicle).run es') :=
    ⟨hcareer.symm, hlinks.symm⟩
  refine ⟨g, g', Chronicle.rename htells.nodup htells'.nodup
    (htells.names_perm htells' hsame), hg, hg', ?_, ?_, ?_, ?_⟩
  · exact htells.node_renameId htells' hsame
  · exact htells.relations_perm htells' hsame
  · exact htells.find?_renameId htells' hsame
  · exact htells.current?_renameId htells' hsame

/-- Two processes start a child each, in one order and in the other.  The first node of the first
run is the third one of the second run. -/
theorem rearranged_graphs_forks :
    let fork := fun (parent child : Uuid) =>
      ({ event := "audit:event:aue_fork:", subjProcUuid := parent, retObjUuid1 := child } : Event)
    let es := [fork "U1" "V1", fork "U2" "V2"]
    let es' := [fork "U2" "V2", fork "U1" "V1"]
    Rearranges es es' ∧ ∃ (g g' : Memory) (rename : Equiv.Perm NodeId),
      ({} : Memory).applyAll (({} : Tracker).run es).2 = .ok g ∧
      ({} : Memory).applyAll (({} : Tracker).run es').2 = .ok g' ∧
      (g.nodes.get? 0).map Node.uuid = some "U1" ∧ (g'.nodes.get? 0).map Node.uuid = some "U2" ∧
      (g'.nodes.get? (rename 0)).map Node.uuid = some "U1" := by
  intro fork es es'
  have hrearranges : Rearranges es es' :=
    ⟨[(fork "U2" "V2", 1), (fork "U1" "V1", 0)], .swap .., rfl, by decide⟩
  obtain ⟨g, g', rename, hg, hg', hnode, _⟩ := rearranged_graphs hrearranges
  have hfirst : (g.nodes.get? 0).map Node.uuid = some "U1" := by
    have hrun : (({} : Memory).applyAll (({} : Tracker).run es).2).map
        (fun g => (g.nodes.get? 0).map Node.uuid) = .ok (some "U1") := by decide
    rw [hg] at hrun
    exact Except.ok.inj hrun
  have hfirst' : (g'.nodes.get? 0).map Node.uuid = some "U2" := by
    have hrun : (({} : Memory).applyAll (({} : Tracker).run es').2).map
        (fun g => (g.nodes.get? 0).map Node.uuid) = .ok (some "U2") := by decide
    rw [hg'] at hrun
    exact Except.ok.inj hrun
  refine ⟨hrearranges, g, g', rename, hg, hg', hfirst, hfirst', ?_⟩
  rw [hnode, Option.map_map]
  exact hfirst

end Tracker

end Lineage

import Lineage.Proofs.Graph.Batches
import Lineage.Proofs.Graph.PropertyGraph
import Mathlib.Data.List.Basic

/-!
# Processes in a property graph

A vertex with the label `Process` is the process with the id under `db_id`, and it stands for a node
if it has the other properties of one as well (`Vertex.record?`).  An edge of the kind `INF` between
two processes stands for a relation of its class (`PropertyGraph.relation?`).  Other vertices and
edges stand for nothing.

`Same` says that a property graph holds what a graph in memory holds.  Each property graph without
two processes of the same id holds the same as some graph in memory (`same_memory`).
-/

namespace Lineage.Graph

open Lineage.Graph.Cypher

/-! ## What stands for what -/

namespace Vertex

/-- The id of a process. -/
def id? (v : Vertex) : Option NodeId :=
  if "Process" ∈ v.labels then (v.properties.get? "db_id").bind Value.number? else none

/-- The node that a process stands for. -/
def record? (v : Vertex) : Option Node := do
  let id ← v.id?
  let uuid ← (v.properties.get? "uuid").bind Value.text?
  let pid ← (v.properties.get? "pid").bind Value.word?
  let cmdline ← (v.properties.get? "cmdline").bind Value.text?
  return ⟨id, uuid, pid, cmdline⟩

variable {v : Vertex}

theorem record?_eq_some_iff {p : Node} :
    v.record? = some p ↔ v.id? = some p.id ∧
      (v.properties.get? "uuid").bind Value.text? = some p.uuid ∧
      (v.properties.get? "pid").bind Value.word? = some p.pid ∧
      (v.properties.get? "cmdline").bind Value.text? = some p.cmdline := by
  constructor
  · intro h
    obtain ⟨id, hid, h⟩ := Option.bind_eq_some_iff.mp h
    obtain ⟨uuid, huuid, h⟩ := Option.bind_eq_some_iff.mp h
    obtain ⟨pid, hpid, h⟩ := Option.bind_eq_some_iff.mp h
    obtain ⟨cmdline, hcmdline, h⟩ := Option.bind_eq_some_iff.mp h
    cases h
    exact ⟨hid, huuid, hpid, hcmdline⟩
  · rintro ⟨hid, huuid, hpid, hcmdline⟩
    rw [record?, hid, huuid, hpid, hcmdline]
    rfl

theorem id?_of_record? {p : Node} (h : v.record? = some p) : v.id? = some p.id :=
  (record?_eq_some_iff.mp h).1

theorem id?_set {key : String} (hkey : key ≠ "db_id") (value : Value) :
    (v.set key value).id? = v.id? := by
  simp [id?, set, hkey.symm]

end Vertex

namespace PropertyGraph

/-- The ids of the processes. -/
def processIds (g : PropertyGraph) : List NodeId := g.vertices.filterMap Vertex.id?

/-- The nodes that the processes stand for. -/
def records (g : PropertyGraph) : List Node := g.vertices.filterMap Vertex.record?

/-- The ids of the vertices, as far as they are processes. -/
def ids (g : PropertyGraph) : List (Option NodeId) := g.vertices.map Vertex.id?

theorem processIds_eq (g : PropertyGraph) : g.processIds = g.ids.filterMap fun id => id := by
  rw [ids, List.filterMap_map]
  rfl

/-- The id of the process at a position. -/
def idAt? (g : PropertyGraph) (i : Nat) : Option NodeId := g.ids[i]?.join

/-- The relation that an edge stands for. -/
def relation? (g : PropertyGraph) (e : Edge) : Option Relation :=
  if e.kind = "INF" then do
    let src ← g.idAt? e.src
    let dst ← g.idAt? e.dst
    let name ← (e.properties.get? "class").bind Value.text?
    let cls ← RelClass.ofName? name
    return ⟨src, dst, cls⟩
  else none

/-- The relations that the edges stand for. -/
def relations (g : PropertyGraph) : List Relation := g.edges.filterMap g.relation?

/-- No two processes have the same id. -/
def Keyed (g : PropertyGraph) : Prop := g.processIds.Nodup

end PropertyGraph

/-- A property graph holds what a graph in memory holds: the same nodes under their ids, and the
same relations in the same order. -/
structure Same (g : PropertyGraph) (m : Memory) : Prop where
  /-- The nodes. -/
  nodes (id : NodeId) (p : Node) : m.nodes.get? id = some p ↔ p ∈ g.records ∧ p.id = id
  /-- The relations. -/
  relations : g.relations = m.relations

/-! ## The graph in memory -/

namespace PropertyGraph

variable {g : PropertyGraph}

theorem id_mem_processIds {p : Node} (h : p ∈ g.records) : p.id ∈ g.processIds := by
  obtain ⟨v, hv, hp⟩ := List.mem_filterMap.mp h
  exact List.mem_filterMap.mpr ⟨v, hv, Vertex.id?_of_record? hp⟩

theorem nodup_records (h : g.Keyed) : (g.records.map Node.id).Nodup := by
  refine List.Nodup.sublist ?_ h
  unfold records processIds
  induction g.vertices with
  | nil => exact .slnil
  | cons v vs ih =>
      cases hrecord : v.record? with
      | none =>
          rw [List.filterMap_cons_none hrecord]
          exact ih.trans (List.Sublist.filterMap Vertex.id? (List.sublist_cons_self v vs))
      | some p =>
          rw [List.filterMap_cons_some hrecord,
            List.filterMap_cons_some (Vertex.id?_of_record? hrecord)]
          exact ih.cons_cons p.id

/-- The graph in memory with the nodes that the processes stand for. -/
def memory (g : PropertyGraph) (h : g.Keyed) : Memory where
  nodes :=
    ⟨g.records.map fun p => (p.id, p), by
      rw [List.map_map]
      exact nodup_records h⟩
  relations := g.relations

theorem find?_eq_some_iff {ps : List Node} (hps : (ps.map Node.id).Nodup) {id : NodeId} {p : Node} :
    Table.find? id (ps.map fun p => (p.id, p)) = some p ↔ p ∈ ps ∧ p.id = id := by
  induction ps with
  | nil => simp [Table.find?]
  | cons q ps ih =>
      rw [List.map_cons, List.nodup_cons] at hps
      rw [List.map_cons, Table.find?, List.mem_cons]
      split
      next hid =>
        subst hid
        rw [Option.some.injEq]
        constructor
        · rintro rfl
          exact ⟨.inl rfl, rfl⟩
        · rintro ⟨rfl | hp, hid⟩
          · rfl
          · exact absurd (hid ▸ List.mem_map_of_mem hp) hps.1
      next hid =>
        rw [ih hps.2]
        constructor
        · exact fun h => ⟨.inr h.1, h.2⟩
        · rintro ⟨rfl | hp, rfl⟩
          · exact absurd rfl hid
          · exact ⟨hp, rfl⟩

/-- What a graph without two processes of the same id holds, some graph in memory holds too. -/
theorem same_memory (h : g.Keyed) : Same g (g.memory h) where
  nodes _ _ := find?_eq_some_iff (nodup_records h)
  relations := rfl

/-! ## More vertices and edges -/

@[simp] theorem processIds_addVertex (g : PropertyGraph) (v : Vertex) :
    (g.addVertex v).processIds = g.processIds ++ v.id?.toList := by
  simp only [processIds, addVertex, List.filterMap_append]
  cases hv : v.id? <;> simp [hv]

@[simp] theorem records_addVertex (g : PropertyGraph) (v : Vertex) :
    (g.addVertex v).records = g.records ++ v.record?.toList := by
  simp only [records, addVertex, List.filterMap_append]
  cases hv : v.record? <;> simp [hv]

/-- The relations depend on the ids of the vertices at the ends of the edges. -/
theorem relations_congr {g' : PropertyGraph} (hedges : g'.edges = g.edges)
    (hids : ∀ i < g.vertices.length, g'.idAt? i = g.idAt? i) : g'.relations = g.relations := by
  rw [relations, relations, hedges]
  refine List.filterMap_congr fun e he => ?_
  obtain ⟨hsrc, hdst⟩ := g.closed e he
  rw [relation?, relation?, hids _ hsrc, hids _ hdst]

@[simp] theorem relations_addVertex (g : PropertyGraph) (v : Vertex) :
    (g.addVertex v).relations = g.relations := by
  refine relations_congr rfl fun i hi => ?_
  rw [idAt?, idAt?, ids, ids, addVertex, List.map_append,
    List.getElem?_append_left (by simpa using hi)]

theorem addEdge_eq_some {e : Edge} (hsrc : e.src < g.vertices.length)
    (hdst : e.dst < g.vertices.length) :
    ∃ g', g.addEdge e = some g' ∧ g'.vertices = g.vertices ∧ g'.edges = g.edges ++ [e] :=
  ⟨_, dif_pos ⟨hsrc, hdst⟩, rfl, rfl⟩

/-- An edge more is at most a relation more. -/
theorem relations_of_edges {g' : PropertyGraph} {e : Edge} (hvertices : g'.vertices = g.vertices)
    (hedges : g'.edges = g.edges ++ [e]) :
    g'.relations = g.relations ++ (g.relation? e).toList := by
  have hsame : g'.relation? = g.relation? := by
    funext e'
    rw [relation?, relation?, idAt?, idAt?, idAt?, idAt?, ids, ids, hvertices]
  rw [relations, relations, hsame, hedges, List.filterMap_append]
  cases he : g.relation? e <;> simp [he]

/-! ## One process among the others -/

/-- A vertex is the one process with an id, between some other vertices. -/
structure Stands (g : PropertyGraph) (id : NodeId) (before : List Vertex) (v : Vertex)
    (behind : List Vertex) : Prop where
  /-- The vertices. -/
  vertices : g.vertices = before ++ v :: behind
  /-- It is the process with the id. -/
  own : v.id? = some id
  /-- No other vertex is a process with this id. -/
  others : ∀ w ∈ before ++ behind, w.id? ≠ some id

theorem Keyed.exists_stands (h : g.Keyed) {id : NodeId} (hid : id ∈ g.processIds) :
    ∃ before v behind, g.Stands id before v behind := by
  obtain ⟨v, hv, hvid⟩ := List.mem_filterMap.mp hid
  obtain ⟨before, behind, hvertices⟩ := List.append_of_mem hv
  refine ⟨before, v, behind, hvertices, hvid, fun w hw hwid => ?_⟩
  rw [Keyed, processIds, hvertices, List.filterMap_append, List.filterMap_cons_some hvid,
    List.nodup_append, List.nodup_cons] at h
  obtain ⟨_, ⟨hbehind, _⟩, hbefore⟩ := h
  rcases List.mem_append.mp hw with hw | hw
  · exact hbefore id (List.mem_filterMap.mpr ⟨w, hw, hwid⟩) id (List.mem_cons_self ..) rfl
  · exact hbehind (List.mem_filterMap.mpr ⟨w, hw, hwid⟩)

namespace Stands

variable {id : NodeId} {before behind : List Vertex} {v : Vertex}

theorem lt_length (h : g.Stands id before v behind) : before.length < g.vertices.length := by
  rw [h.vertices, List.length_append, List.length_cons]
  omega

theorem ids_eq (h : g.Stands id before v behind) :
    g.ids = before.map Vertex.id? ++ some id :: behind.map Vertex.id? := by
  rw [ids, h.vertices, List.map_append, List.map_cons, h.own]

theorem idAt?_eq (h : g.Stands id before v behind) : g.idAt? before.length = some id := by
  rw [idAt?, h.ids_eq, List.getElem?_append_right (by simp), List.length_map, Nat.sub_self]
  rfl

/-- The node under the id is the one that the vertex stands for, and the other vertices stand for
the others. -/
theorem mem_records (h : g.Stands id before v behind) {p : Node} :
    p ∈ g.records ↔
      if p.id = id then
        v.record? = some p
      else p ∈ (before ++ behind).filterMap Vertex.record? := by
  have hother : ∀ w ∈ before ++ behind, w.record? = some p → p.id ≠ id := by
    intro w hw hp hid
    exact h.others w hw (hid ▸ Vertex.id?_of_record? hp)
  have hthis : v.record? = some p → p.id = id := fun hp =>
    Option.some.inj ((Vertex.id?_of_record? hp).symm.trans h.own)
  rw [records, h.vertices]
  simp only [List.mem_filterMap, List.mem_append, List.mem_cons] at hother ⊢
  split <;> grind

/-- A property other than the id is set, and the process stands where it stood. -/
theorem setProperty (h : g.Stands id before v behind) {key : String} (hkey : key ≠ "db_id")
    (value : Value) :
    (g.setProperty before.length key value).Stands id before (v.set key value) behind where
  vertices := by
    change g.vertices.modify before.length (·.set key value) = _
    rw [h.vertices, List.modify_eq_take_drop, List.take_left, List.drop_left]
    rfl
  own := (Vertex.id?_set hkey value).trans h.own
  others := h.others

/-- Where two graphs have the same other vertices, they have the same processes. -/
theorem processIds_congr {g' : PropertyGraph} {v' : Vertex} (h : g.Stands id before v behind)
    (h' : g'.Stands id before v' behind) : g'.processIds = g.processIds := by
  rw [processIds_eq, processIds_eq, h.ids_eq, h'.ids_eq]

theorem relations_congr {g' : PropertyGraph} {v' : Vertex} (h : g.Stands id before v behind)
    (h' : g'.Stands id before v' behind) (hedges : g'.edges = g.edges) :
    g'.relations = g.relations := by
  refine PropertyGraph.relations_congr hedges fun i _ => ?_
  rw [idAt?, idAt?, h.ids_eq, h'.ids_eq]

end Stands

end PropertyGraph

end Lineage.Graph

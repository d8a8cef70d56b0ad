import Lineage.Proofs.Graph.MemoryStore
import Lineage.Proofs.Graph.MissingNodes
import Lineage.Proofs.Graph.StoredProcesses

/-!
# Batches run row by row

Where no two processes have the same id, each pattern of a process that is there finds one vertex.
So the steps of an operation start and end with one row, and they do to the processes what the
operation does to the graph in memory (`run_stepsOf`).  By induction the steps of a batch do what
the batch does (`run_stepsOfBatch`).

Of the server nothing is taken to be true but that it runs the queries of batches row by row
(`RowByRow`).
-/

namespace Lineage.Graph

open Lineage.Graph.Cypher
open Lineage.Json.Grammar (utf8)
open PropertyGraph (Stands Keyed)

/-! ## Finding a process -/

namespace Cypher

theorem fits_process_iff {name : String} {id : NodeId} {v : Vertex} :
    (process name id).fits v = true ↔ v.id? = some id := by
  simp only [process, NodePattern.fits, Vertex.id?, Option.all_some, List.all_cons,
    List.all_nil, Bool.and_true, Bool.and_eq_true, decide_eq_true_eq]
  by_cases hlabel : "Process" ∈ v.labels
  · simp only [hlabel, if_true, true_and]
    cases v.properties.get? "db_id" with
    | none => simp
    | some value => cases value <;> simp [Value.number?]
  · simp [hlabel]

/-- A process that is there is found once. -/
theorem choices_process {g : PropertyGraph} {id : NodeId} {before behind : List Vertex} {v : Vertex}
    (h : g.Stands id before v behind) {name : String} {row : Row}
    (hrow : List.lookup name row = none) :
    (process name id).choices g row = [(name, .vertex before.length) :: row] := by
  have hadmits : ∀ i, (process name id).admits row i = true := by
    intro i
    simp [process, NodePattern.admits, hrow]
  -- None of the other vertices has the id, wherever their positions start.
  have hothers : ∀ (ws : List Vertex) (k : Nat), (∀ w ∈ ws, w ∈ before ++ behind) →
      (ws.zipIdx k).filter (fun wi => (process name id).fits wi.1 &&
        (process name id).admits row wi.2) = [] := by
    intro ws k hws
    refine List.filter_eq_nil_iff.mpr fun wi hwi => ?_
    have hother := h.others wi.1 (hws _ (List.fst_mem_of_mem_zipIdx hwi))
    rw [Bool.and_eq_true, fits_process_iff]
    exact fun hfits => hother hfits.1
  have hthis : ((process name id).fits v && (process name id).admits row before.length) = true := by
    rw [Bool.and_eq_true]
    exact ⟨fits_process_iff.mpr h.own, hadmits _⟩
  rw [NodePattern.choices, h.vertices, List.zipIdx_append, List.zipIdx_cons, List.filter_append,
    hothers before 0 fun w hw => List.mem_append_left _ hw, Nat.zero_add,
    List.filter_cons, if_pos hthis, hothers behind _ fun w hw => List.mem_append_right _ hw]
  rfl

end Cypher

/-! ## One operation -/

/-- A row that binds none of the names in a clause. -/
def Free (row : Row) : Prop := ∀ name ∈ ["a", "b", "p"], List.lookup name row = none

theorem free_nil : Free [] := fun _ _ => rfl

theorem free_count (n : Nat) : Free [("_", .number n)] := by
  simp [Free, List.lookup_cons]

section

variable {g : PropertyGraph} {m : Memory} {row : Row}

/-- The vertex of a new process. -/
def processVertex (id : NodeId) (uuid : Uuid) (pid : UInt32) (cmdline : String) : Vertex :=
  ⟨["Process"], tableOf
    [("db_id", .number id), ("uuid", .text uuid), ("pid", .number pid.toNat),
      ("cmdline", .text cmdline)]⟩

theorem record?_processVertex (id : NodeId) (uuid : Uuid) (pid : UInt32) (cmdline : String) :
    (processVertex id uuid pid cmdline).record? = some ⟨id, uuid, pid, cmdline⟩ := by
  simp [Vertex.record?_eq_some_iff, Vertex.id?, processVertex, tableOf, Value.number?, Value.text?]

theorem run_createNode (id : NodeId) (uuid : Uuid) (pid : UInt32) (cmdline : String) :
    runSteps (stepsOf (.createNode id uuid pid cmdline)) ⟨g, [row]⟩ =
      some ⟨g.addVertex (processVertex id uuid pid cmdline), [row]⟩ := rfl

theorem Same.createNode (h : Same g m) {id : NodeId} (hid : id ∉ g.processIds) (uuid : Uuid)
    (pid : UInt32) (cmdline : String) :
    Same (g.addVertex (processVertex id uuid pid cmdline))
      (m.effect (.createNode id uuid pid cmdline)) where
  nodes j p := by
    simp only [Memory.effect, Table.get?_insert, PropertyGraph.records_addVertex,
      record?_processVertex, Option.toList_some, List.mem_append, List.mem_singleton]
    split
    next hj =>
      subst hj
      rw [Option.some.injEq]
      constructor
      · rintro rfl
        exact ⟨.inr rfl, rfl⟩
      · rintro ⟨hp | rfl, hpid⟩
        · exact absurd (hpid ▸ PropertyGraph.id_mem_processIds hp) hid
        · rfl
    next hj =>
      rw [h.nodes j p]
      constructor
      · rintro ⟨hp, hpid⟩
        exact ⟨.inl hp, hpid⟩
      · rintro ⟨hp | rfl, hpid⟩
        · exact ⟨hp, hpid⟩
        · exact absurd hpid.symm hj
  relations := by
    rw [PropertyGraph.relations_addVertex]
    exact h.relations

section

variable {src dst : NodeId} {before before' behind behind' : List Vertex} {v v' : Vertex}

/-- Both ends of a relation are found, and the one edge between them is added. -/
theorem run_createRel (hsrc : g.Stands src before v behind) (hdst : g.Stands dst before' v' behind')
    (hrow : Free row) (cls : RelClass) :
    ∃ g' row',
      runSteps (stepsOf (.createRel src dst cls)) ⟨g, [row]⟩ = some ⟨g', [row']⟩ ∧
      g'.vertices = g.vertices ∧
      g'.edges = g.edges ++
        [⟨before.length, before'.length, "INF", tableOf [("class", .text cls.name)]⟩] := by
  have ha : List.lookup "a" row = none := hrow "a" (by decide)
  have hb : List.lookup "b" (("a", .vertex before.length) :: row) = none := hrow "b" (by decide)
  let row' : Row := ("b", .vertex before'.length) :: ("a", .vertex before.length) :: row
  have hfind : choicesOfAll g [process "a" src, process "b" dst] row = [row'] := by
    simp only [choicesOfAll, choices_process hsrc ha, choices_process hdst hb,
      List.flatMap_singleton, row']
  obtain ⟨g', hedge, hvertices, hedges⟩ := PropertyGraph.addEdge_eq_some
    (e := ⟨before.length, before'.length, "INF", tableOf [("class", .text cls.name)]⟩)
    hsrc.lt_length hdst.lt_length
  have hmake :
      (Path.edge (found "a") "INF" [("class", .text cls.name)] (found "b")).makeAll g [row'] =
        some (g', [row']) := by
    simp [Path.makeAll, Path.make, NodePattern.place, found, List.lookup_cons, row', hedge]
  refine ⟨g', row', ?_, hvertices, hedges⟩
  simp only [stepsOf, runSteps, Step.run, List.flatMap_singleton, hfind, Option.bind_some, hmake]
  rfl

theorem run_updateNode {id : NodeId} (h : g.Stands id before v behind) (hrow : Free row)
    (pid : UInt32) (cmdline : String) :
    ∃ row', runSteps (stepsOf (.updateNode id pid cmdline)) ⟨g, [row]⟩ =
      some ⟨(g.setProperty before.length "pid" (.number pid.toNat)).setProperty
        before.length "cmdline"
        (.text cmdline), [row']⟩ := by
  have hp : List.lookup "p" row = none := hrow "p" (by decide)
  let row' : Row := ("p", .vertex before.length) :: row
  have hfind : choicesOfAll g [process "p" id] row = [row'] := by
    simp only [choicesOfAll, choices_process h hp, List.flatMap_singleton, row']
  refine ⟨row', ?_⟩
  simp only [stepsOf, runSteps, Step.run, List.flatMap_singleton, hfind, Option.bind_some]
  rfl

/-- An edge between two processes stands for the relation between their ids. -/
theorem Same.createRel (h : Same g m) (hsrc : g.Stands src before v behind)
    (hdst : g.Stands dst before' v' behind') (cls : RelClass) {g' : PropertyGraph}
    (hvertices : g'.vertices = g.vertices)
    (hedges : g'.edges = g.edges ++
      [⟨before.length, before'.length, "INF", tableOf [("class", .text cls.name)]⟩]) :
    Same g' (m.effect (.createRel src dst cls)) where
  nodes id p := by
    rw [PropertyGraph.records, hvertices]
    exact h.nodes id p
  relations := by
    have hrelation : g.relation? ⟨before.length, before'.length, "INF",
        tableOf [("class", .text cls.name)]⟩ =
        some ⟨src, dst, cls⟩ := by
      simp [PropertyGraph.relation?, hsrc.idAt?_eq, hdst.idAt?_eq, tableOf, Value.text?,
        RelClass.ofName?_name]
    rw [PropertyGraph.relations_of_edges hvertices hedges, hrelation, h.relations]
    rfl

/-- The process stands where it stood, with another process number and command line. -/
theorem stands_updateNode {id : NodeId} (h : g.Stands id before v behind) (pid : UInt32)
    (cmdline : String) :
    ((g.setProperty before.length "pid" (.number pid.toNat)).setProperty before.length "cmdline"
      (.text cmdline)).Stands id before
        ((v.set "pid" (.number pid.toNat)).set "cmdline" (.text cmdline)) behind :=
  (h.setProperty (show "pid" ≠ "db_id" by decide) _).setProperty
    (show "cmdline" ≠ "db_id" by decide) _

theorem record?_updateNode {p : Node} (h : v.record? = some p) (pid : UInt32) (cmdline : String) :
    ((v.set "pid" (.number pid.toNat)).set "cmdline" (.text cmdline)).record? =
      some { p with pid := pid, cmdline := cmdline } := by
  rw [Vertex.record?_eq_some_iff] at h ⊢
  obtain ⟨hid, huuid, _, _⟩ := h
  refine ⟨?_, ?_, ?_, ?_⟩
  · rw [Vertex.id?_set (by decide), Vertex.id?_set (by decide)]
    exact hid
  · simpa [Vertex.set] using huuid
  · simp [Vertex.set]
  · simp [Vertex.set, Value.text?]

/-- The process number and the command line are set on the one process, and the others stay as they
are. -/
theorem Same.updateNode (h : Same g m) {id : NodeId} (hid : m.nodes.contains id = true)
    (hstands : g.Stands id before v behind) (pid : UInt32) (cmdline : String) :
    Same
      ((g.setProperty before.length "pid" (.number pid.toNat)).setProperty before.length "cmdline"
        (.text cmdline))
      (m.effect (.updateNode id pid cmdline)) where
  nodes j p := by
    obtain ⟨q, hq⟩ := Option.isSome_iff_exists.mp hid
    obtain ⟨hmem, hqid⟩ := (h.nodes id q).mp hq
    rw [hstands.mem_records, if_pos hqid] at hmem
    rw [(stands_updateNode hstands pid cmdline).mem_records, record?_updateNode hmem]
    simp only [Memory.effect, Table.get?_modify]
    split
    next hj =>
      subst hj
      rw [hq, Option.map_some]
      constructor
      · intro hp
        cases hp
        exact ⟨(if_pos hqid).mpr rfl, hqid⟩
      · rintro ⟨hp, hpid⟩
        rwa [if_pos hpid] at hp
    next hj =>
      rw [h.nodes j p, hstands.mem_records]
      refine and_congr_left fun hpid => ?_
      rw [if_neg (hpid ▸ hj), if_neg (hpid ▸ hj)]
  relations := by
    rw [hstands.relations_congr (stands_updateNode hstands pid cmdline) rfl]
    exact h.relations

end

/-- The steps of an operation on one row leave one row, and they do what the operation does to the
graph in memory. -/
theorem run_stepsOf (hkeyed : g.Keyed) (hsame : Same g m) (hrow : Free row) {op : Op}
    (hneeds : ∀ id ∈ needs op, m.nodes.contains id = true)
    (hnew : ∀ id ∈ creates op, id ∉ g.processIds) :
    ∃ g' row', runSteps (stepsOf op) ⟨g, [row]⟩ = some ⟨g', [row']⟩ ∧
      g'.processIds = g.processIds ++ creates op ∧ Same g' (m.effect op) := by
  -- A node that is in the graph in memory is one process among the others.
  have hthere : ∀ id ∈ needs op, ∃ before v behind, g.Stands id before v behind := by
    intro id hid
    obtain ⟨p, hp⟩ := Option.isSome_iff_exists.mp (hneeds id hid)
    obtain ⟨hmem, hpid⟩ := (hsame.nodes id p).mp hp
    exact hkeyed.exists_stands (hpid ▸ PropertyGraph.id_mem_processIds hmem)
  cases op with
  | createNode id uuid pid cmdline =>
      have hid : (processVertex id uuid pid cmdline).id? = some id :=
        Vertex.id?_of_record? (record?_processVertex id uuid pid cmdline)
      refine ⟨_, row, run_createNode id uuid pid cmdline, ?_, ?_⟩
      · rw [PropertyGraph.processIds_addVertex, hid]
        rfl
      · exact hsame.createNode (hnew id (List.mem_singleton_self id)) uuid pid cmdline
  | createRel src dst cls =>
      obtain ⟨_, _, _, hsrc⟩ := hthere src (List.mem_cons_self ..)
      obtain ⟨_, _, _, hdst⟩ :=
        hthere dst (List.mem_cons_of_mem _ (List.mem_singleton_self dst))
      obtain ⟨g', row', hrun, hvertices, hedges⟩ := run_createRel hsrc hdst hrow cls
      refine ⟨g', row', hrun, ?_, hsame.createRel hsrc hdst cls hvertices hedges⟩
      rw [PropertyGraph.processIds, hvertices]
      exact (List.append_nil _).symm
  | updateNode id pid cmdline =>
      obtain ⟨_, _, _, hstands⟩ := hthere id (List.mem_singleton_self id)
      obtain ⟨row', hrun⟩ := run_updateNode hstands hrow pid cmdline
      refine ⟨_, row', hrun, ?_, hsame.updateNode (hneeds id (List.mem_singleton_self id))
        hstands pid cmdline⟩
      rw [hstands.processIds_congr (stands_updateNode hstands pid cmdline)]
      exact (List.append_nil _).symm

/-! ## Batches -/

/-- The steps of a batch do what the batch does to the graph in memory, however many come before. -/
theorem run_stepsOfBatch {ops : List Op} {m' : Memory} (hsame : Same g m) (hrow : Free row)
    (happly : m.applyAll ops = .ok m') (hnodup : (g.processIds ++ ops.flatMap creates).Nodup) :
    ∃ g' row', runSteps (stepsOfBatch ops) ⟨g, [row]⟩ = some ⟨g', [row']⟩ ∧
      g'.processIds = g.processIds ++ ops.flatMap creates ∧ Same g' m' := by
  induction ops generalizing g m row with
  | nil =>
      cases happly
      exact ⟨g, row, rfl, (List.append_nil _).symm, hsame⟩
  | cons op ops ih =>
      obtain ⟨hneeds, hrest⟩ := Memory.applyAll_cons_ok.mp happly
      rw [List.flatMap_cons, ← List.append_assoc] at hnodup
      obtain ⟨hids, _, _⟩ := List.nodup_append.mp hnodup
      obtain ⟨hkeyed, _, hdisjoint⟩ := List.nodup_append.mp hids
      obtain ⟨g₁, row₁, hrun, hids₁, hsame₁⟩ := run_stepsOf hkeyed hsame hrow hneeds
        fun id hid hold => hdisjoint id hold id hid rfl
      rw [← hids₁] at hnodup
      cases ops with
      | nil =>
          cases hrest
          refine ⟨g₁, row₁, ?_, ?_, hsame₁⟩
          · rw [stepsOfBatch, List.map_singleton, List.intercalate_singleton]
            exact hrun
          · rw [hids₁, List.flatMap_singleton]
      | cons op' ops =>
          -- Between two operations the one row is counted, which leaves one row without the names
          -- of the first.
          obtain ⟨g', row', hrun', hids', hsame'⟩ := ih hsame₁ (free_count 1) hrest hnodup
          refine ⟨g', row', ?_, ?_, hsame'⟩
          · have hsteps : stepsOfBatch (op :: op' :: ops) =
                stepsOf op ++ ([.count "_"] ++ stepsOfBatch (op' :: ops)) :=
              (List.intercalate_cons_cons ..).trans (List.append_assoc ..)
            rw [hsteps, runSteps_append, hrun, Option.bind_some, runSteps_append]
            exact hrun'
          · rw [hids', hids₁]
            simp only [List.flatMap_cons, List.append_assoc]

end

/-- A server runs the query of a batch row by row. -/
def RowByRow (server : PropertyGraph → String → Option PropertyGraph) : Prop :=
  ∀ g ops steps, ops ≠ [] → readQuery? (utf8 (render ops)) = some steps →
    server g (render ops) = g.run steps

/-- The server that reads a query and runs its steps does so. -/
theorem rowByRow_run : RowByRow fun g text => (readQuery? (utf8 text)).bind g.run := by
  intro g ops steps _ hread
  exact congrArg (·.bind g.run) hread

/-- A property graph in which no two processes have the same id holds what a graph in memory holds.
Then a batch whose nodes from outside are there, and whose new nodes are all different and not there
yet, does the same to both, if the server runs the query of the batch row by row. -/
theorem query_does_batch (server : PropertyGraph → String → Option PropertyGraph)
    (hserver : RowByRow server) {g : PropertyGraph} {m : Memory} (hkeyed : g.Keyed)
    (hsame : Same g m) {ops : List Op}
    (hrefs : ∀ id ∈ externalRefs ops, m.nodes.contains id = true)
    (hdistinct : (ops.flatMap creates).Nodup)
    (habsent : ∀ id ∈ ops.flatMap creates, id ∉ g.processIds) :
    ∃ steps g', readQuery? (utf8 (render ops)) = some steps ∧ g.run steps = some g' ∧
      (ops ≠ [] → server g (render ops) = some g') ∧
      (m.execute ops).1 = .ok () ∧ g'.Keyed ∧ Same g' (m.execute ops).2 := by
  have hok := Memory.execute_isOk_iff.mpr hrefs
  have hexecute : m.execute ops = (.ok (), (m.execute ops).2) := Prod.ext hok rfl
  obtain ⟨m', happly, hafter⟩ := Memory.execute_ok_iff.mp hexecute
  have hnodup : (g.processIds ++ ops.flatMap creates).Nodup :=
    List.nodup_append.mpr ⟨hkeyed, hdistinct, fun i hi j hj hij => habsent j hj (hij ▸ hi)⟩
  obtain ⟨g', row', hrun, hids, hsame'⟩ := run_stepsOfBatch hsame free_nil happly hnodup
  have hgraph : g.run (stepsOfBatch ops) = some g' := by
    rw [PropertyGraph.run, hrun]
    rfl
  have hread := readQuery?_render ops
  refine ⟨_, g', hread, hgraph, fun hops => (hserver g ops _ hops hread).trans hgraph,
    hok, ?_, ?_⟩
  · rw [PropertyGraph.Keyed, hids]
    exact hnodup
  · rw [hafter]
    exact ⟨hsame'.nodes, hsame'.relations⟩

/-- A command line holds a quote and a separator, a node that is no process has the id of one, and a
relation leads from a node to itself. -/
theorem query_does_batch_quoted :
    let g : PropertyGraph :=
      { vertices := [processVertex 0 "U0" 1 "sh", ⟨["Note"], tableOf [("db_id", .number 0)]⟩,
          processVertex 1 "U1" 2 "ls"]
        edges := [⟨0, 2, "INF", tableOf [("class", .text "child")]⟩]
        closed := by decide }
    let ops : List Op :=
      [.createNode 2 "U2" 3 "echo \"\nWITH count(*) AS _\n", .createRel 1 2 .next,
        .updateNode 0 4 "zsh", .createRel 2 2 .child]
    ∃ h : g.Keyed, externalRefs ops = [0, 1] ∧
      (∀ id ∈ externalRefs ops, (g.memory h).nodes.contains id = true) ∧
      (ops.flatMap creates).Nodup ∧ (∀ id ∈ ops.flatMap creates, id ∉ g.processIds) ∧
      ∃ g', (readQuery? (utf8 (render ops))).bind g.run = some g' ∧
        Same g' ((g.memory h).execute ops).2 ∧
        g'.relations = [⟨0, 1, .child⟩, ⟨1, 2, .next⟩, ⟨2, 2, .child⟩] := by
  intro g ops
  have hids : g.processIds = [0, 1] := rfl
  have hkeyed : g.Keyed := by
    rw [PropertyGraph.Keyed, hids]
    decide
  have hrefs : ∀ id ∈ externalRefs ops, (g.memory hkeyed).nodes.contains id = true := by
    intro id hid
    have hid : id ∈ [0, 1] := hid
    rcases List.mem_pair.mp hid with rfl | rfl <;> rfl
  have habsent : ∀ id ∈ ops.flatMap creates, id ∉ g.processIds := by
    rw [hids]
    decide
  obtain ⟨_, g', _, _, hserved, _, _, hsame⟩ :=
    query_does_batch _ rowByRow_run hkeyed (PropertyGraph.same_memory hkeyed) hrefs
      (by decide) habsent
  refine ⟨hkeyed, rfl, hrefs, by decide, habsent, g', hserved (List.cons_ne_nil _ _), hsame, ?_⟩
  rw [hsame.relations]
  rfl

end Lineage.Graph

import Lineage.Proofs.Graph.Batches

/-!
# Stores that keep a graph

A `MemoryStore` keeps a graph and applies to it the batches that it accepts, as `Memory` does.  It
may refuse more than the graph would: to prepare, and any batch.  A refusal leaves the graph as it
was.  A `Guarded` graph refuses as it is told, so whatever a session has to expect of its store,
some guarded graph does it.

`MemoryStore.offer_graph` says what is left of batches that were offered: the graph behind those
that were accepted.
-/

namespace Lineage.Graph

/-- A store that keeps a graph and may refuse more than it has to. -/
class MemoryStore (σ : Type) extends GraphStore σ where
  /-- The graph. -/
  graph : σ → Memory
  /-- Preparing leaves the graph alone. -/
  graph_prepare (s : σ) : graph (prepare s).2 = graph s
  /-- A batch that is accepted is applied. -/
  graph_of_ok {s s' : σ} {ops : List Op} :
    execute s ops = (.ok (), s') → (graph s).execute ops = (.ok (), graph s')
  /-- A batch that is refused leaves the graph alone. -/
  graph_of_error {s s' : σ} {ops : List Op} {e : StoreError} :
    execute s ops = (.error e, s') → graph s' = graph s

/-! ## The graph itself -/

theorem Memory.execute_ok_iff {m m' : Memory} {ops : List Op} :
    m.execute ops = (.ok (), m') ↔
      ∃ g, m.applyAll ops = .ok g ∧ m' = { g with batches := m.batches + 1 } := by
  unfold Memory.execute
  cases m.applyAll ops with
  | error e => simp
  | ok g => simp [eq_comm]

theorem Memory.eq_of_execute_error {m m' : Memory} {ops : List Op} {e : StoreError}
    (h : m.execute ops = (.error e, m')) : m' = m := by
  unfold Memory.execute at h
  split at h
  · exact (Prod.mk.inj h).2.symm
  · cases h

instance : MemoryStore Memory where
  graph := id
  graph_prepare _ := rfl
  graph_of_ok h := h
  graph_of_error h := Memory.eq_of_execute_error h

/-! ## A graph with a guard -/

/-- A graph that refuses as it is told, call by call. -/
structure Guarded where
  /-- The graph. -/
  graph : Memory := {}
  /-- Why the store refuses to prepare, by the number of times it was asked before. -/
  badPrepares : Nat → Option StoreError := fun _ => none
  /-- Why the store refuses a batch, by the number of batches before. -/
  badBatches : Nat → Option StoreError := fun _ => none
  /-- The number of times it was asked to prepare. -/
  prepares : Nat := 0
  /-- The number of batches it was offered. -/
  calls : Nat := 0

namespace Guarded

/-- Prepares, unless it was told to refuse. -/
def prepare (s : Guarded) : Except StoreError Unit × Guarded :=
  match s.badPrepares s.prepares with
  | some e => (.error e, { s with prepares := s.prepares + 1 })
  | none => (.ok (), { s with prepares := s.prepares + 1 })

/-- Applies a batch to the graph, unless it was told to refuse. -/
def execute (s : Guarded) (ops : List Op) : Except StoreError Unit × Guarded :=
  match s.badBatches s.calls with
  | some e => (.error e, { s with calls := s.calls + 1 })
  | none =>
    let (answer, graph) := s.graph.execute ops
    (answer, { s with graph := graph, calls := s.calls + 1 })

instance : MemoryStore Guarded where
  prepare := prepare
  execute := execute
  graph := graph
  graph_prepare s := by
    unfold prepare
    split <;> rfl
  graph_of_ok {s s' ops} h := by
    unfold execute at h
    split at h
    · cases h
    · cases hx : s.graph.execute ops with
      | mk answer graph =>
          rw [hx] at h
          cases h
          rfl
  graph_of_error {s s' ops e} h := by
    unfold execute at h
    split at h
    · cases h
      rfl
    · cases hx : s.graph.execute ops with
      | mk answer graph =>
          rw [hx] at h
          cases h
          exact Memory.eq_of_execute_error hx

end Guarded

/-! ## Batches -/

namespace MemoryStore

variable {σ : Type} [MemoryStore σ]

/-- Behind some batches that were offered, the graph is the one behind those that were accepted. -/
theorem offer_graph (s : σ) (batches : List (List Op)) :
    ∃ g, (graph s).applyAll (Session.offer s batches).accepted.flatten = .ok g ∧
      graph (Session.offer s batches).store =
        { g with batches := (graph s).batches + (Session.offer s batches).accepted.length } := by
  induction batches generalizing s with
  | nil => exact ⟨graph s, rfl, rfl⟩
  | cons batch batches ih =>
      rw [Session.offer]
      cases hx : GraphStore.execute s batch with
      | mk answer s' =>
          cases answer with
          | error e =>
              refine ⟨graph s, rfl, ?_⟩
              exact graph_of_error hx
          | ok _ =>
              obtain ⟨g₁, happly, hgraph⟩ := Memory.execute_ok_iff.mp (graph_of_ok hx)
              obtain ⟨g, hrest, hstore⟩ := ih s'
              rw [hgraph] at hrest hstore
              -- The count of batches is all that differs between the two graphs.
              have hsame := Memory.applyAll_withBatches hrest g₁.batches
              refine ⟨{ g with batches := g₁.batches }, ?_, ?_⟩
              · exact Memory.applyAll_append_ok.mpr ⟨g₁, happly, hsame⟩
              · simp only [hstore, List.length_cons, Nat.add_assoc, Nat.add_comm 1]

end MemoryStore

end Lineage.Graph

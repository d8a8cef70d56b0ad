import Lineage.Proofs.Graph.QuerySteps
import Lineage.Table

/-!
# Property graphs and the rows of a query

A property graph has vertices, which bear labels and properties, and edges between them.  An edge
knows its ends by their positions.

A query runs over rows, each of which binds some names (`Step.run`).  It starts with one row that
binds nothing (`PropertyGraph.run`).  A path is made once for each row, and properties are set once
for each row.  Where nodes are found, each row gives way to one row for every choice of vertices
that are as the patterns say.  And where the rows are counted, one row is left, however many there
were.
-/

namespace Lineage.Graph

open Lineage.Graph.Cypher

/-! ## Graphs -/

/-- A vertex. -/
structure Vertex where
  /-- The labels it bears. -/
  labels : List String
  /-- Its properties. -/
  properties : Table String Value

/-- The vertex with a value for a property, in place of the old one if there was one. -/
def Vertex.set (v : Vertex) (key : String) (value : Value) : Vertex :=
  { v with properties := v.properties.insert key value }

/-- An edge. -/
structure Edge where
  /-- The position of the vertex it starts from. -/
  src : Nat
  /-- The position of the vertex it leads to. -/
  dst : Nat
  /-- Its kind. -/
  kind : String
  /-- Its properties. -/
  properties : Table String Value

/-- A graph of vertices and edges with properties. -/
structure PropertyGraph where
  /-- The vertices. -/
  vertices : List Vertex
  /-- The edges, in the order in which they were added. -/
  edges : List Edge
  /-- There are vertices at the ends of each edge. -/
  closed : ∀ e ∈ edges, e.src < vertices.length ∧ e.dst < vertices.length

/-- The table of some properties. -/
def tableOf (properties : Properties) : Table String Value :=
  properties.foldl (fun t p => t.insert p.1 p.2) ∅

namespace PropertyGraph

/-- Adds a vertex behind the others. -/
def addVertex (g : PropertyGraph) (v : Vertex) : PropertyGraph where
  vertices := g.vertices ++ [v]
  edges := g.edges
  closed e he := by
    have := g.closed e he
    rw [List.length_append]
    omega

/-- Adds an edge, if there are vertices at its ends. -/
def addEdge (g : PropertyGraph) (e : Edge) : Option PropertyGraph :=
  if h : e.src < g.vertices.length ∧ e.dst < g.vertices.length then
    some
      { vertices := g.vertices
        edges := g.edges ++ [e]
        closed := fun e' he' => by
          rcases List.mem_append.mp he' with he' | he'
          · exact g.closed e' he'
          · exact List.mem_singleton.mp he' ▸ h }
  else none

/-- Sets a property of the vertex at a position. -/
def setProperty (g : PropertyGraph) (i : Nat) (key : String) (value : Value) : PropertyGraph where
  vertices := g.vertices.modify i (·.set key value)
  edges := g.edges
  closed e he := by
    rw [List.length_modify]
    exact g.closed e he

end PropertyGraph

/-! ## Rows -/

/-- What a name may stand for. -/
inductive Binding where
  /-- The vertex at a position. -/
  | vertex (i : Nat)
  /-- A number. -/
  | number (n : Nat)
  deriving DecidableEq

/-- The names that are bound, the last one first. -/
abbrev Row := List (String × Binding)

namespace Row

/-- The position of the vertex that a name stands for. -/
def vertex? (row : Row) (name : String) : Option Nat :=
  match row.lookup name with
  | some (.vertex i) => some i
  | _ => none

/-- Binds a name, if there is one, to the vertex at a position. -/
def bind (row : Row) (name : Option String) (i : Nat) : Row :=
  match name with
  | some n => (n, .vertex i) :: row
  | none => row

end Row

namespace Cypher

namespace NodePattern

/-- Whether a vertex bears the label and has the properties of a pattern. -/
def fits (p : NodePattern) (v : Vertex) : Bool :=
  (p.label.all fun l => l ∈ v.labels) &&
    p.properties.all fun kv => v.properties.get? kv.1 = some kv.2

/-- Whether the name of a pattern may stand for the vertex at a position. -/
def admits (p : NodePattern) (row : Row) (i : Nat) : Bool :=
  p.name.all fun name => (row.lookup name).all (· = .vertex i)

/-- One row for each vertex that a pattern may stand for. -/
def choices (p : NodePattern) (g : PropertyGraph) (row : Row) : List Row :=
  (g.vertices.zipIdx.filter fun vi => p.fits vi.1 && p.admits row vi.2).map
    fun vi => row.bind p.name vi.2

/-- Adds a vertex that is as a pattern says. -/
def add (p : NodePattern) (g : PropertyGraph) (row : Row) : Nat × PropertyGraph × Row :=
  let i := g.vertices.length
  (i, g.addVertex ⟨p.label.toList, tableOf p.properties⟩, row.bind p.name i)

/-- Gives the end of an edge its vertex, which is the one that was found under the name, or a new
one. -/
def place (p : NodePattern) (g : PropertyGraph) (row : Row) :
    Option (Nat × PropertyGraph × Row) :=
  match p.name.bind (List.lookup · row) with
  | none => some (p.add g row)
  | some (.vertex i) => if p.label = none ∧ p.properties = [] then some (i, g, row) else none
  | some (.number _) => none

end NodePattern

/-- One row for each choice of vertices for some patterns. -/
def choicesOfAll (g : PropertyGraph) : List NodePattern → Row → List Row
  | [], row => [row]
  | p :: ps, row => (p.choices g row).flatMap (choicesOfAll g ps)

/-- Makes a path.  A node by itself is a new one, and its name must be new. -/
def Path.make (path : Path) (g : PropertyGraph) (row : Row) : Option (PropertyGraph × Row) :=
  match path with
  | .node p => if (p.name.bind (List.lookup · row)).isSome then none else some (p.add g row).2
  | .edge src kind properties dst => do
    let (i, g, row) ← src.place g row
    let (j, g, row) ← dst.place g row
    let g ← g.addEdge ⟨i, j, kind, tableOf properties⟩
    return (g, row)

/-- Makes a path once for each row. -/
def Path.makeAll (path : Path) (g : PropertyGraph) : List Row → Option (PropertyGraph × List Row)
  | [] => some (g, [])
  | row :: rows => do
    let (g, row) ← path.make g row
    let (g, rows) ← path.makeAll g rows
    return (g, row :: rows)

/-- Sets some properties of vertices that names stand for. -/
def setAll (row : Row) (g : PropertyGraph) : List Assignment → Option PropertyGraph
  | [] => some g
  | a :: assignments => do
    let i ← row.vertex? a.name
    setAll row (g.setProperty i a.property a.value) assignments

/-! ## Running steps -/

/-- A graph and the rows of a query on it. -/
structure Frame where
  /-- The graph. -/
  graph : PropertyGraph
  /-- The rows. -/
  rows : List Row

/-- Runs one step. -/
def Step.run (step : Step) (f : Frame) : Option Frame :=
  match step with
  | .create path => (path.makeAll f.graph f.rows).map fun (g, rows) => ⟨g, rows⟩
  | .find nodes => some ⟨f.graph, f.rows.flatMap (choicesOfAll f.graph nodes)⟩
  | .set assignments =>
    (f.rows.foldlM (fun g row => setAll row g assignments) f.graph).map (⟨·, f.rows⟩)
  | .count name => some ⟨f.graph, [[(name, .number f.rows.length)]]⟩

/-- Runs some steps in order. -/
def runSteps : List Step → Frame → Option Frame
  | [], f => some f
  | step :: steps, f => (step.run f).bind (runSteps steps)

theorem runSteps_append (steps steps' : List Step) (f : Frame) :
    runSteps (steps ++ steps') f = (runSteps steps f).bind (runSteps steps') := by
  induction steps generalizing f with
  | nil => rfl
  | cons step steps ih =>
      rw [List.cons_append, runSteps, runSteps, Option.bind_assoc]
      exact congrArg _ (funext ih)

end Cypher

/-- Runs the steps of a query, which starts with one row. -/
def PropertyGraph.run (g : PropertyGraph) (steps : List Step) : Option PropertyGraph :=
  (runSteps steps ⟨g, [[]]⟩).map Frame.graph

end Lineage.Graph

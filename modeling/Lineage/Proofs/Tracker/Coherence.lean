import Lineage.Proofs.Graph.Batches
import Lineage.Proofs.Tracker.Changes

/-!
# The roster and the graph

A graph is *coherent* with a roster (`Roster.Coherent`) when every live process has its node there,
with its identity and its command line.  Each change of the roster comes with the operation that
keeps the two coherent: `renew` with a new node, `setCmdline` with an update, and `release` and
`setThin` with nothing.

From this, `Roster.Change.commits` says that the operations of a step succeed on a coherent graph
and leave it coherent, and `Tracker.run_coherent` says so of any number of events.  A new tracker is
coherent with every graph, so its operations never name a node that is not there
(`Tracker.batches_commit`), and the graph never falls behind the roster (`Tracker.graph_coherent`).
-/

namespace Lineage

open Lineage.Audit (Event)
open Lineage.Graph (Memory NodeId Op Uuid)
open Lineage.Graph.Cypher (creates externalRefs needs)

namespace Roster

/-- Every live process has its node in the graph, as the roster knows it. -/
def Coherent (r : Roster) (m : Memory) : Prop :=
  ∀ uuid id, r.find? uuid = some id →
    ∃ i p, r.get? id = some i ∧ m.nodes.get? id = some p ∧
      p.id = id ∧ p.uuid = uuid ∧ p.cmdline = i.cmdline

namespace Coherent

variable {r : Roster} {m : Memory}

/-- Nothing is live in a new roster. -/
theorem new (m : Memory) : ({} : Roster).Coherent m := by
  intro uuid id h
  cases h

theorem contains (h : r.Coherent m) {uuid : Uuid} {id : NodeId} (hlive : r.find? uuid = some id) :
    m.nodes.contains id = true := by
  obtain ⟨i, p, _, hp, _⟩ := h uuid id hlive
  simp [hp]

/-! ## Changes and their operations -/

theorem renew (h : r.Coherent m) (hwf : r.WellFormed) (uuid : Uuid) (pid : UInt32)
    (cmdline : String) (thin : Bool) :
    (r.renew uuid cmdline thin).1.Coherent (m.effect (.createNode r.nextId uuid pid cmdline)) := by
  intro v id hv
  rw [find?_renew] at hv
  rw [get?_renew]
  split at hv
  · rename_i hvu
    cases hv
    have hfresh : r.find? uuid ≠ some r.nextId := fun hu => Nat.lt_irrefl _ (hwf.lt_nextId hu)
    refine ⟨⟨r.nextId, cmdline, thin⟩, ⟨r.nextId, uuid, pid, cmdline⟩, ?_, ?_,
      rfl, hvu.symm, rfl⟩
    · simp [hfresh]
    · simp [Memory.effect]
  · rename_i hne
    obtain ⟨i, p, hi, hp, hrest⟩ := h v id hv
    have hother : r.find? uuid ≠ some id := fun hu => hne (hwf.injective hv hu)
    have hold : id ≠ r.nextId := Nat.ne_of_lt (hwf.lt_nextId hv)
    exact ⟨i, p, by simp [hother, hold, hi], by simp [Memory.effect, hold, hp], hrest⟩

theorem release (h : r.Coherent m) (hwf : r.WellFormed) (uuid : Uuid) :
    (r.release uuid).1.Coherent m := by
  intro v id hv
  rw [find?_release] at hv
  split at hv
  · cases hv
  · rename_i hne
    obtain ⟨i, p, hi, hrest⟩ := h v id hv
    have hother : r.find? uuid ≠ some id := fun hu => hne (hwf.injective hv hu)
    exact ⟨i, p, by simp [get?_release, hother, hi], hrest⟩

theorem setCmdline (h : r.Coherent m) (id : NodeId) (pid : UInt32) (cmdline : String) :
    (r.setCmdline id cmdline).Coherent (m.effect (.updateNode id pid cmdline)) := by
  intro v id' hv
  obtain ⟨i, p, hi, hp, hid, huuid, hcmd⟩ := h v id' hv
  by_cases hsame : id' = id
  · subst hsame
    refine ⟨{ i with cmdline := cmdline }, { p with pid := pid, cmdline := cmdline }, ?_, ?_, hid,
      huuid, rfl⟩
    · simp [Roster.setCmdline, hi]
    · simp [Memory.effect, hp]
  · exact ⟨i, p, by simp [Roster.setCmdline, hsame, hi], by simp [Memory.effect, hsame, hp], hid,
      huuid, hcmd⟩

theorem setThin (h : r.Coherent m) (id : NodeId) (thin : Bool) :
    (r.setThin id thin).Coherent m := by
  intro v id' hv
  obtain ⟨i, p, hi, hrest⟩ := h v id' hv
  by_cases hsame : id' = id
  · subst hsame
    exact ⟨{ i with thin := thin }, p, by simp [Roster.setThin, hi], hrest⟩
  · exact ⟨i, p, by simp [Roster.setThin, hsame, hi], hrest⟩

end Coherent

/-- Operations succeed on a graph and leave it coherent with a roster. -/
def Commits (r : Roster) (m : Memory) (ops : List Op) : Prop :=
  ∃ m', m.applyAll ops = .ok m' ∧ r.Coherent m'

namespace Commits

variable {r : Roster} {m : Memory} {ops : List Op}

theorem nil (h : r.Coherent m) : r.Commits m [] := ⟨m, rfl, h⟩

/-- A first operation whose nodes are there. -/
theorem cons {op : Op} (hneeds : ∀ id ∈ needs op, m.nodes.contains id = true)
    (h : r.Commits (m.effect op) ops) : r.Commits m (op :: ops) := by
  obtain ⟨m', happly, hc⟩ := h
  exact ⟨m', Memory.applyAll_cons_ok.mpr ⟨hneeds, happly⟩, hc⟩

/-- A first operation that updates a node of the graph. -/
theorem update {id : NodeId} {pid : UInt32} {cmdline : String}
    (hid : m.nodes.contains id = true)
    (h : r.Commits (m.effect (.updateNode id pid cmdline)) ops) :
    r.Commits m (.updateNode id pid cmdline :: ops) := by
  refine .cons ?_ h
  intro id' hid'
  cases List.mem_singleton.mp hid'
  exact hid

/-- A relation between two nodes of the graph. -/
theorem relate {src dst : NodeId} {cls : Graph.RelClass} (hs : m.nodes.contains src = true)
    (hd : m.nodes.contains dst = true) (h : r.Coherent m) :
    r.Commits m [.createRel src dst cls] := by
  refine .cons ?_ (.nil (m := m.effect (.createRel src dst cls)) h)
  intro id hid
  simp only [needs, List.mem_cons, List.not_mem_nil, or_false] at hid
  rcases hid with rfl | rfl
  · exact hs
  · exact hd

/-- A new node, and a relation to it from a node of the graph. -/
theorem createAndRelate {src id : NodeId} {uuid : Uuid} {pid : UInt32} {cmdline : String}
    {cls : Graph.RelClass} (hs : m.nodes.contains src = true)
    (h : r.Coherent (m.effect (.createNode id uuid pid cmdline))) :
    r.Commits m [.createNode id uuid pid cmdline, .createRel src id cls] := by
  refine .cons (by simp [needs]) (.relate ?_ ?_ h)
  · exact (Memory.contains_effect ..).mpr (.inl hs)
  · exact (Memory.contains_effect ..).mpr (.inr (List.mem_singleton.mpr rfl))

end Commits

/-! ## Steps -/

section Steps

variable {shared : Prop} {r r' : Roster} {m : Memory} {ops : List Op}

/-- The operations of a step succeed on a coherent graph and leave it coherent. -/
theorem Change.commits (h : Change shared r ops r') (hc : r.Coherent m) (hwf : r.WellFormed) :
    r'.Commits m ops := by
  cases h with
  | appear pid cmdline _ => exact .cons (by simp [needs]) (.nil (hc.renew hwf _ pid cmdline true))
  | start pid cmdline hlive =>
      exact .update (hc.contains hlive) (.nil ((hc.setCmdline _ pid cmdline).setThin _ false))
  | restart pid cmdline hlive =>
      exact .createAndRelate (hc.contains hlive) (hc.renew hwf _ pid cmdline false)
  | bear pid cmdline hlive _ =>
      exact .createAndRelate (hc.contains hlive) (hc.renew hwf _ pid cmdline true)
  | share pid cmdline _ hlive hchild =>
      refine .update (hc.contains hchild) (.relate ?_ ?_ (hc.setCmdline _ pid cmdline))
      · exact (Memory.contains_effect ..).mpr (.inl (hc.contains hlive))
      · exact (Memory.contains_effect ..).mpr (.inl (hc.contains hchild))
  | leave uuid => exact .nil (hc.release hwf uuid)

theorem Changes.commits (h : Changes shared r ops r') (hc : r.Coherent m) (hwf : r.WellFormed) :
    r'.Commits m ops := by
  induction h with
  | refl => exact .nil hc
  | snoc h hnew ih =>
      obtain ⟨m₁, h₁, hc₁⟩ := ih
      obtain ⟨m₂, h₂, hc₂⟩ := hnew.commits hc₁ (h.wellFormed hwf)
      exact ⟨m₂, Memory.applyAll_append_ok.mpr ⟨m₁, h₁, h₂⟩, hc₂⟩

end Steps

end Roster

/-! ## Many events -/

namespace Tracker

/-- The operations of some events succeed on a coherent graph and leave it coherent. -/
theorem run_coherent {t : Tracker} {m : Memory} (h : t.roster.Coherent m)
    (hwf : t.roster.WellFormed) (es : List Event) :
    (t.run es).1.roster.Commits m (t.run es).2 :=
  (t.run_changes es (.inl trivial)).commits h hwf

/-- The operations of a new tracker commit on every graph, however they are cut into batches.  Each
batch names only nodes that it creates or that an earlier batch created, and the graph in the end is
the same for every cut. -/
theorem batches_commit (es : List Event) (m : Memory) :
    ∃ g, m.applyAll (({} : Tracker).run es).2 = .ok g ∧
      ∀ batches : List (List Op), batches.flatten = (({} : Tracker).run es).2 →
        Session.offer m batches =
            { store := { g with batches := m.batches + batches.length }, accepted := batches
              refusal := none } ∧
          ∀ before batch after, batches = before ++ batch :: after →
            ∀ id ∈ externalRefs batch, id ∈ before.flatten.flatMap creates := by
  obtain ⟨g, hg, _⟩ := run_coherent (t := {}) (.new m) .new es
  obtain ⟨g₀, hg₀, _⟩ := run_coherent (t := {}) (.new {}) .new es
  refine ⟨g, hg, fun batches hcut => ⟨Graph.offer_memory (hcut ▸ hg), ?_⟩⟩
  rintro before batch after rfl id hid
  rw [← hcut, List.flatten_append, List.flatten_cons] at hg₀
  exact Graph.Cypher.created_of_mem_externalRefs hg₀ hid

/-- A program starts and then a child, and a batch ends between the child's node and its
relation. -/
theorem batches_commit_fork :
    let es : List Event :=
      [{ event := "audit:event:aue_execve:", subjProcUuid := "U1", cmdline := "sh" },
        { event := "audit:event:aue_fork:",
          subjProcUuid := "U1", retObjUuid1 := "U2", retval := 7 }]
    let batches : List (List Op) :=
      [[.createNode 0 "U1" 0 "", .updateNode 0 0 "sh", .createNode 1 "U2" 7 "sh"],
        [.createRel 0 1 .child]]
    batches.flatten = (({} : Tracker).run es).2 ∧
      (Session.offer ({} : Memory) batches).refusal = none ∧
      externalRefs [.createRel 0 1 .child] = [0, 1] := by
  intro es batches
  have hcut : batches.flatten = (({} : Tracker).run es).2 := by decide
  obtain ⟨g, _, h⟩ := batches_commit es {}
  exact ⟨hcut, by rw [(h batches hcut).1], by decide⟩

/-- The graph behind the operations of a new tracker has the node of every live process, with its
identity and its command line. -/
theorem graph_coherent (es : List Event) (m : Memory) :
    ∃ g, m.applyAll (({} : Tracker).run es).2 = .ok g ∧
      (({} : Tracker).run es).1.roster.Coherent g :=
  run_coherent (t := {}) (.new m) .new es

end Tracker

end Lineage

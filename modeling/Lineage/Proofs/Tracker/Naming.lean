import Mathlib.Data.List.Nodup
import Lineage.Proofs.Graph.Batches
import Lineage.Proofs.Tracker.Career
import Lineage.Proofs.Tracker.Roster

/-!
# Names of nodes

A run of the tracker gives each node an id.  The names of the nodes in the order of their ids lead
from a chronicle to the roster and the graph of the run: a roster and a graph *tell* a chronicle
under a list of names (`Tells`) when every lookup in them is what the chronicle says of the node
with that name.  The id of a node is the place of its name in the list.

What changes a roster and a graph changes the chronicle that they tell, a new node with a new name
at the end of the list (`Tells.renew`), and everything else under the same names.  So `Tells.run`
holds of any events: behind them, the roster and the graph tell the chronicle of these events.
-/

namespace Lineage

open Lineage.Audit (Event)
open Lineage.Graph (Memory Node NodeId Op RelClass Relation Uuid)

namespace Career

theorem last_grow (c : Career) (pid : UInt32) (cmdline : String) (thin : Bool) :
    (c.grow pid cmdline thin).last = c.nodes.length := by
  simp [last, grow]

theorem cmdline_grow (c : Career) (pid : UInt32) (cmdline : String) (thin : Bool) :
    (c.grow pid cmdline thin).cmdline = cmdline := by
  simp [Career.cmdline, grow]

theorem length_amend (c : Career) (pid : UInt32) (cmdline : String) :
    (c.amend pid cmdline).nodes.length = c.nodes.length :=
  List.length_set

theorem last_amend (c : Career) (pid : UInt32) (cmdline : String) :
    (c.amend pid cmdline).last = c.last := by
  rw [last, length_amend, last]

theorem last_lt {c : Career} (h : c.nodes ≠ []) : c.last < c.nodes.length :=
  Nat.sub_lt (List.length_pos_iff.mpr h) Nat.one_pos

theorem cmdline_amend {c : Career} (h : c.nodes ≠ []) (pid : UInt32) (cmdline : String) :
    (c.amend pid cmdline).cmdline = cmdline := by
  have hlast : (c.amend pid cmdline).nodes.getLast? = some (pid, cmdline) := by
    rw [List.getLast?_eq_getElem?, length_amend, amend, last]
    exact List.getElem?_set_self (last_lt h)
  rw [Career.cmdline, hlast]

end Career

namespace Chronicle

/-- The relation that a link is, under a list of names. -/
def relation (names : List Name) (l : Link) : Relation :=
  ⟨names.idxOf l.src, names.idxOf l.dst, l.cls⟩

/-- The name of the last node of a process. -/
def current (k : Chronicle) (uuid : Uuid) : Name := (uuid, (k.career uuid).last)

/-- The name of the next node of a process. -/
def next (k : Chronicle) (uuid : Uuid) : Name := (uuid, (k.career uuid).nodes.length)

/-- A roster and a graph hold what a chronicle says, under a list of names. -/
structure Tells (names : List Name) (k : Chronicle) (r : Roster) (m : Memory) : Prop where
  length_eq : names.length = r.nextId
  nodup : names.Nodup
  mem_iff : ∀ {uuid n}, (uuid, n) ∈ names ↔ n < (k.career uuid).nodes.length
  nodes_ne_nil : ∀ {uuid thin}, (k.career uuid).live = some thin → (k.career uuid).nodes ≠ []
  find?_eq : ∀ uuid, r.find? uuid = (k.career uuid).live.map fun _ => names.idxOf (k.current uuid)
  get?_eq : ∀ {uuid thin}, (k.career uuid).live = some thin →
    r.get? (names.idxOf (k.current uuid)) =
      some ⟨names.idxOf (k.current uuid), (k.career uuid).cmdline, thin⟩
  node_eq : ∀ id, m.nodes.get? id = names[id]?.bind fun name =>
    (k.career name.1).nodes[name.2]?.map fun node => ⟨id, name.1, node.1, node.2⟩
  ends_mem : ∀ l ∈ k.links, l.src ∈ names ∧ l.dst ∈ names
  relations_eq : m.relations = k.links.map (relation names)

namespace Tells

variable {names : List Name} {k : Chronicle} {r : Roster} {m : Memory}

theorem new : Tells [] {} {} {} where
  length_eq := rfl
  nodup := .nil
  mem_iff := by simp
  nodes_ne_nil hlive := by cases hlive
  find?_eq _ := rfl
  get?_eq hlive := by cases hlive
  node_eq _ := rfl
  ends_mem _ hl := by cases hl
  relations_eq := rfl

theorem current_mem (h : Tells names k r m) {uuid : Uuid} {thin : Bool}
    (hlive : (k.career uuid).live = some thin) : k.current uuid ∈ names :=
  h.mem_iff.mpr (Career.last_lt (h.nodes_ne_nil hlive))

/-- A live process, as the roster and the chronicle know it. -/
theorem live (h : Tells names k r m) {uuid : Uuid} {id : NodeId} (hfind : r.find? uuid = some id) :
    id = names.idxOf (k.current uuid) ∧ k.current uuid ∈ names ∧
      ∃ thin, (k.career uuid).live = some thin ∧
        r.get? id = some ⟨id, (k.career uuid).cmdline, thin⟩ := by
  rw [h.find?_eq] at hfind
  obtain ⟨thin, hlive, rfl⟩ := Option.map_eq_some_iff.mp hfind
  exact ⟨rfl, h.current_mem hlive, thin, hlive, h.get?_eq hlive⟩

theorem absent (h : Tells names k r m) {uuid : Uuid} (hfind : r.find? uuid = none) :
    (k.career uuid).live = none := by
  rw [h.find?_eq] at hfind
  exact Option.map_eq_none_iff.mp hfind

/-- The names of two live processes have the same place only if the processes are the same. -/
theorem idxOf_current_ne (h : Tells names k r m) {uuid v : Uuid} {thin : Bool}
    (hlive : (k.career v).live = some thin) (hne : v ≠ uuid) :
    names.idxOf (k.current v) ≠ names.idxOf (k.current uuid) := by
  intro heq
  have hname := (List.idxOf_inj (h.current_mem hlive)).mp heq
  exact hne (congrArg Prod.fst hname)

theorem current_set_ne (k : Chronicle) {uuid v : Uuid} (h : v ≠ uuid) (c : Career) :
    (k.set uuid c).current v = k.current v := by
  rw [current, career_set_ne k h, current]

/-! ## A new node -/

theorem current_grow (k : Chronicle) (uuid : Uuid) (pid : UInt32) (cmdline : String) (thin : Bool) :
    (k.set uuid ((k.career uuid).grow pid cmdline thin)).current uuid = k.next uuid := by
  rw [current, career_set_self, Career.last_grow, next]

theorem next_not_mem (h : Tells names k r m) (uuid : Uuid) : k.next uuid ∉ names := fun hmem =>
  Nat.lt_irrefl _ (h.mem_iff.mp hmem)

/-- The next name has the next id. -/
theorem idxOf_next (h : Tells names k r m) (uuid : Uuid) :
    (names ++ [k.next uuid]).idxOf (k.next uuid) = r.nextId := by
  rw [List.idxOf_append_of_notMem (h.next_not_mem uuid), List.idxOf_cons_self, h.length_eq]
  rfl

theorem idxOf_lt_nextId (h : Tells names k r m) {name : Name} (hmem : name ∈ names) :
    names.idxOf name < r.nextId :=
  h.length_eq ▸ List.idxOf_lt_length_iff.mpr hmem

theorem find?_ne_nextId (h : Tells names k r m) (uuid : Uuid) : r.find? uuid ≠ some r.nextId := by
  intro hfind
  obtain ⟨hid, hmem, _⟩ := h.live hfind
  exact Nat.ne_of_lt (h.idxOf_lt_nextId hmem) hid.symm

/-- The nodes behind a new one: that one, and those that were there. -/
theorem node_renew (h : Tells names k r m) (uuid : Uuid) (pid : UInt32) (cmdline : String)
    (thin : Bool) (id : NodeId) :
    (m.effect (.createNode r.nextId uuid pid cmdline)).nodes.get? id =
      (names ++ [k.next uuid])[id]?.bind fun name =>
        ((k.set uuid ((k.career uuid).grow pid cmdline thin)).career name.1).nodes[name.2]?.map
          fun node => ⟨id, name.1, node.1, node.2⟩ := by
  rw [Memory.effect, Table.get?_insert]
  split
  · rename_i hid
    rw [hid, ← h.length_eq, List.getElem?_concat_length, Option.bind_some, next, career_set_self,
      Career.grow, List.getElem?_concat_length]
    rfl
  · rename_i hid
    rw [h.node_eq, List.getElem?_append]
    split
    · cases hname : names[id]? with
      | none => rfl
      | some name =>
          obtain ⟨v, n⟩ := name
          have hn := h.mem_iff.mp (List.mem_of_getElem? hname)
          by_cases hv : v = uuid
          · subst hv
            simp only [Option.bind_some, career_set_self, Career.grow]
            rw [List.getElem?_append_left hn]
          · simp only [Option.bind_some, career_set_ne k hv]
    · rename_i hlong
      have hlt : names.length < id :=
        Nat.lt_of_le_of_ne (Nat.le_of_not_lt hlong) fun heq => hid (heq ▸ h.length_eq)
      rw [List.getElem?_eq_none (Nat.le_of_lt hlt),
        List.getElem?_eq_none (l := [_]) (Nat.sub_pos_of_lt hlt)]
      rfl

/-- A new node, with the next name of its process. -/
theorem renew (h : Tells names k r m) (uuid : Uuid) (pid : UInt32) (cmdline : String)
    (thin : Bool) :
    Tells (names ++ [k.next uuid]) (k.set uuid ((k.career uuid).grow pid cmdline thin))
      (r.renew uuid cmdline thin).1 (m.effect (.createNode r.nextId uuid pid cmdline)) where
  length_eq := by
    rw [List.length_append, h.length_eq]
    rfl
  nodup := List.nodup_append.mpr ⟨h.nodup, List.nodup_singleton _,
    fun a ha b hb heq => h.next_not_mem uuid (List.mem_singleton.mp hb ▸ heq ▸ ha)⟩
  mem_iff := by
    intro v n
    rw [List.mem_append, h.mem_iff, List.mem_singleton, next, Prod.mk.injEq]
    by_cases hv : v = uuid
    · subst hv
      rw [career_set_self, Career.grow, List.length_append]
      simp only [true_and, List.length_singleton]
      omega
    · rw [career_set_ne k hv]
      simp [hv]
  nodes_ne_nil := by
    intro v t hlive
    by_cases hv : v = uuid
    · subst hv
      rw [career_set_self, Career.grow]
      exact List.append_ne_nil_of_right_ne_nil _ (List.cons_ne_nil _ _)
    · rw [career_set_ne k hv] at hlive ⊢
      exact h.nodes_ne_nil hlive
  find?_eq := by
    intro v
    rw [Roster.find?_renew]
    split
    · rename_i hv
      subst hv
      rw [current_grow, h.idxOf_next, career_set_self]
      rfl
    · rename_i hv
      rw [career_set_ne k hv, current_set_ne k hv, h.find?_eq]
      cases hlive : (k.career v).live with
      | none => rfl
      | some t =>
          rw [List.idxOf_append_of_mem (h.current_mem hlive)]
  get?_eq := by
    intro v t hlive
    by_cases hv : v = uuid
    · subst hv
      rw [career_set_self] at hlive
      cases hlive
      rw [current_grow, h.idxOf_next, Roster.get?_renew, if_neg (h.find?_ne_nextId v), if_pos rfl,
        career_set_self, Career.cmdline_grow]
    · rw [career_set_ne k hv] at hlive ⊢
      have hmem := h.current_mem hlive
      rw [current_set_ne k hv, List.idxOf_append_of_mem hmem, Roster.get?_renew, if_neg,
        if_neg (Nat.ne_of_lt (h.idxOf_lt_nextId hmem)), h.get?_eq hlive]
      exact fun hfind => h.idxOf_current_ne hlive hv (h.live hfind).1
  node_eq := h.node_renew uuid pid cmdline thin
  ends_mem l hl := by
    obtain ⟨hsrc, hdst⟩ := h.ends_mem l hl
    exact ⟨List.mem_append_left _ hsrc, List.mem_append_left _ hdst⟩
  relations_eq := by
    refine h.relations_eq.trans (List.map_congr_left fun l hl => ?_)
    obtain ⟨hsrc, hdst⟩ := h.ends_mem l hl
    rw [relation, relation, List.idxOf_append_of_mem hsrc, List.idxOf_append_of_mem hdst]

/-! ## A node that is changed, and a process that is forgotten -/

/-- The nodes behind an update: the last one of a live process, and those that it leaves alone. -/
theorem node_amend (h : Tells names k r m) {uuid : Uuid} {id : NodeId}
    (hfind : r.find? uuid = some id) (pid : UInt32) (cmdline : String) (thin : Bool)
    (id' : NodeId) :
    (m.effect (.updateNode id pid cmdline)).nodes.get? id' =
      names[id']?.bind fun name =>
        ((k.set uuid { (k.career uuid).amend pid cmdline with live := some thin }).career
          name.1).nodes[name.2]?.map fun node => ⟨id', name.1, node.1, node.2⟩ := by
  obtain ⟨hid, hmem, t, hlive, _⟩ := h.live hfind
  have hnodes := h.nodes_ne_nil hlive
  rw [Memory.effect, Table.get?_modify, h.node_eq]
  cases hname : names[id']? with
  | none => simp
  | some name =>
      obtain ⟨v, n⟩ := name
      simp only [Option.bind_some]
      by_cases hv : v = uuid
      · subst hv
        rw [career_set_self]
        by_cases hn : n = (k.career v).last
        · subst hn
          have hplace : id' = id := by
            rw [hid]
            obtain ⟨hlt, hget'⟩ := List.getElem?_eq_some_iff.mp hname
            rw [current, ← hget', h.nodup.idxOf_getElem]
          subst hplace
          rw [if_pos rfl, Career.amend, List.getElem?_set_self (Career.last_lt hnodes),
            List.getElem?_eq_getElem (Career.last_lt hnodes)]
          rfl
        · have hother : id' ≠ id := by
            rintro rfl
            rw [hid, List.getElem?_idxOf hmem] at hname
            cases hname
            exact hn rfl
          rw [if_neg hother, Career.amend, List.getElem?_set_ne (Ne.symm hn)]
      · have hother : id' ≠ id := by
          rintro rfl
          rw [hid, List.getElem?_idxOf hmem] at hname
          cases hname
          exact hv rfl
        rw [if_neg hother, career_set_ne k hv]

theorem length_nodes_set (k : Chronicle) {uuid : Uuid} {c : Career}
    (h : c.nodes.length = (k.career uuid).nodes.length) (v : Uuid) :
    ((k.set uuid c).career v).nodes.length = (k.career v).nodes.length := by
  by_cases hv : v = uuid
  · subst hv
    rw [career_set_self, h]
  · rw [career_set_ne k hv]

/-- Another command line and process number for the last node of a live process. -/
theorem amend (h : Tells names k r m) {uuid : Uuid} {id : NodeId} (hfind : r.find? uuid = some id)
    (pid : UInt32) (cmdline : String) (thin : Bool) {r' : Roster} (hnext : r'.nextId = r.nextId)
    (hfind' : ∀ v, r'.find? v = r.find? v)
    (hget : ∀ id', r'.get? id' = if id' = id then some ⟨id, cmdline, thin⟩ else r.get? id') :
    Tells names (k.set uuid { (k.career uuid).amend pid cmdline with live := some thin }) r'
      (m.effect (.updateNode id pid cmdline)) := by
  obtain ⟨hid, hmem, t, hlive, _⟩ := h.live hfind
  have hnodes := h.nodes_ne_nil hlive
  have hlength : ∀ v, ((k.set uuid { (k.career uuid).amend pid cmdline with
      live := some thin }).career v).nodes.length = (k.career v).nodes.length :=
    length_nodes_set k (Career.length_amend ..)
  have hcurrent : ∀ v, (k.set uuid { (k.career uuid).amend pid cmdline with
      live := some thin }).current v = k.current v := by
    intro v
    rw [current, Career.last, hlength, current, Career.last]
  exact
    { h with
      length_eq := h.length_eq.trans hnext.symm
      mem_iff := by
        intro v n
        rw [hlength, h.mem_iff]
      nodes_ne_nil := by
        intro v b hb
        rw [← List.length_pos_iff, hlength, List.length_pos_iff]
        by_cases hv : v = uuid
        · subst hv
          exact hnodes
        · rw [career_set_ne k hv] at hb
          exact h.nodes_ne_nil hb
      find?_eq := by
        intro v
        rw [hfind', hcurrent, h.find?_eq]
        by_cases hv : v = uuid
        · subst hv
          rw [career_set_self, hlive]
          rfl
        · rw [career_set_ne k hv]
      get?_eq := by
        intro v b hb
        rw [hcurrent, hget]
        by_cases hv : v = uuid
        · subst hv
          rw [career_set_self] at hb ⊢
          cases hb
          rw [← hid, if_pos rfl]
          exact congrArg some (congrArg (Incarnation.mk id · thin)
            (Career.cmdline_amend hnodes pid cmdline).symm)
        · rw [career_set_ne k hv] at hb ⊢
          rw [hid, if_neg (h.idxOf_current_ne hb hv), h.get?_eq hb]
      node_eq := h.node_amend hfind pid cmdline thin }

/-- A process that is forgotten. -/
theorem release (h : Tells names k r m) (uuid : Uuid) :
    Tells names (k.set uuid { k.career uuid with live := none }) (r.release uuid).1 m := by
  have hnodes : ∀ v, ((k.set uuid { k.career uuid with live := none }).career v).nodes =
      (k.career v).nodes := by
    intro v
    by_cases hv : v = uuid
    · subst hv
      rw [career_set_self]
    · rw [career_set_ne k hv]
  have hother : ∀ {v thin}, ((k.set uuid { k.career uuid with live := none }).career v).live =
      some thin → v ≠ uuid := by
    rintro v thin hlive rfl
    rw [career_set_self] at hlive
    cases hlive
  exact
    { h with
      length_eq := h.length_eq.trans (Roster.nextId_release r uuid).symm
      mem_iff := by
        intro v n
        rw [hnodes, h.mem_iff]
      nodes_ne_nil := by
        intro v t hlive
        have hv := hother hlive
        rw [career_set_ne k hv] at hlive ⊢
        exact h.nodes_ne_nil hlive
      find?_eq := by
        intro v
        rw [Roster.find?_release]
        split
        · rename_i hv
          subst hv
          rw [career_set_self]
          rfl
        · rename_i hv
          rw [career_set_ne k hv, current_set_ne k hv, h.find?_eq]
      get?_eq := by
        intro v t hlive
        have hv := hother hlive
        rw [career_set_ne k hv] at hlive ⊢
        rw [current_set_ne k hv, Roster.get?_release, if_neg, h.get?_eq hlive]
        exact fun hfind => h.idxOf_current_ne hlive hv (h.live hfind).1
      node_eq := by
        intro id
        rw [h.node_eq]
        simp only [hnodes] }

/-- A relation between two nodes. -/
theorem relate (h : Tells names k r m) {a b : Name} (ha : a ∈ names) (hb : b ∈ names)
    (cls : RelClass) :
    Tells names (k.link a b cls) r (m.effect (.createRel (names.idxOf a) (names.idxOf b) cls)) :=
  { h with
    ends_mem := fun l hl => by
      rcases List.mem_append.mp hl with hold | hnew
      · exact h.ends_mem l hold
      · obtain rfl := List.mem_singleton.mp hnew
        exact ⟨ha, hb⟩
    relations_eq := by
      rw [link, List.map_append, ← h.relations_eq]
      rfl }

/-! ## One event -/

theorem announce (h : Tells names k r m) (uuid : Uuid) (pid : UInt32) (cmdline : String) :
    ∃ names', Tells names' (k.announce uuid pid cmdline) (r.announce uuid pid cmdline).1
      ((r.announce uuid pid cmdline).2.2.foldl Memory.effect m) := by
  unfold Chronicle.announce Career.announce
  cases hfind : r.find? uuid with
  | some id =>
      obtain ⟨_, _, thin, hlive, _⟩ := h.live hfind
      rw [Roster.announce_of_live hfind, hlive]
      have hsame : k.set uuid (k.career uuid) = k := by
        rw [set, Function.update_eq_self]
      exact ⟨names, hsame.symm ▸ h⟩
  | none =>
      rw [Roster.announce_of_absent hfind, h.absent hfind]
      exact ⟨_, h.renew uuid pid cmdline true⟩

/-- A new node, and a relation to it from a live one. -/
theorem renewAndRelate (h : Tells names k r m) {src : Uuid} {id : NodeId}
    (hfind : r.find? src = some id) (uuid : Uuid) (pid : UInt32) (cmdline : String) (thin : Bool)
    (cls : RelClass) :
    ∃ names', Tells names'
      ((k.set uuid ((k.career uuid).grow pid cmdline thin)).link (k.current src) (k.next uuid)
        cls)
      (r.renew uuid cmdline thin).1
      ([Op.createNode r.nextId uuid pid cmdline, .createRel id r.nextId cls].foldl
        Memory.effect m) := by
  obtain ⟨hid, hmem, _⟩ := h.live hfind
  have hrenew := h.renew uuid pid cmdline thin
  have hrelate := hrenew.relate (List.mem_append_left _ hmem)
    (List.mem_append_right _ (List.mem_singleton_self _)) cls
  rw [List.idxOf_append_of_mem hmem, h.idxOf_next, ← hid] at hrelate
  exact ⟨_, hrelate⟩

theorem startProgram (h : Tells names k r m) {e : Event} {id : NodeId}
    (hfind : r.find? e.subjProcUuid = some id) :
    ∃ names', Tells names' (k.startProgram e) (r.startProgram id e).1
      ((r.startProgram id e).2.foldl Memory.effect m) := by
  obtain ⟨_, _, thin, hlive, hget⟩ := h.live hfind
  unfold Chronicle.startProgram
  simp only [hlive]
  cases thin with
  | true =>
      rw [Roster.startProgram_of_thin hget rfl]
      refine ⟨names, h.amend hfind e.pid e.cmdline false rfl (fun _ => rfl) fun id' => ?_⟩
      by_cases hid : id' = id
      · subst hid
        simp [Roster.setThin, Roster.setCmdline, hget]
      · simp [Roster.setThin, Roster.setCmdline, hid]
  | false =>
      rw [Roster.startProgram_of_started hget rfl]
      exact h.renewAndRelate hfind e.subjProcUuid e.pid e.cmdline false .next

theorem startChild (h : Tells names k r m) {e : Event} {id : NodeId}
    (hfind : r.find? e.subjProcUuid = some id) :
    ∃ names', Tells names' (k.startChild e) (r.startChild id e).1
      ((r.startChild id e).2.foldl Memory.effect m) := by
  obtain ⟨hid, hmem, _, _, hget⟩ := h.live hfind
  have hcmdline : r.cmdlineAt id = (k.career e.subjProcUuid).cmdline := by
    rw [Roster.cmdlineAt, hget]
  unfold Chronicle.startChild Career.adopt
  cases hchild : r.find? e.retObjUuid1 with
  | some child =>
      obtain ⟨hidc, hmemc, thin, hlivec, hgetc⟩ := h.live hchild
      rw [Roster.startChild_of_live hchild, hcmdline]
      have hamend : Tells names _ (r.setCmdline child (k.career e.subjProcUuid).cmdline) _ :=
        h.amend hchild e.retval (k.career e.subjProcUuid).cmdline thin rfl (fun _ => rfl)
          fun id' => by
            by_cases hid' : id' = child
            · subst hid'
              simp [Roster.setCmdline, hgetc]
            · simp [Roster.setCmdline, hid']
      have hrelate := hamend.relate hmem hmemc .child
      rw [← hid, ← hidc] at hrelate
      simp only [hlivec, Career.last_amend]
      have hkeep : { (k.career e.retObjUuid1).amend e.retval (k.career e.subjProcUuid).cmdline with
          live := some thin } =
          (k.career e.retObjUuid1).amend e.retval (k.career e.subjProcUuid).cmdline := by
        rw [Career.amend, hlivec]
      rw [hkeep] at hrelate
      exact ⟨names, hrelate⟩
  | none =>
      rw [Roster.startChild_of_absent hchild, hcmdline]
      simp only [h.absent hchild, Career.last_grow]
      exact h.renewAndRelate hfind e.retObjUuid1 e.retval _ true .child

theorem act (h : Tells names k r m) {e : Event} {id : NodeId}
    (hfind : r.find? e.subjProcUuid = some id) :
    ∃ names', Tells names' (k.act e) (r.act id e).1 ((r.act id e).2.foldl Memory.effect m) := by
  unfold Chronicle.act Roster.act
  cases e.kind with
  | execve => exact h.startProgram hfind
  | fork => exact h.startChild hfind
  | vfork => exact h.startChild hfind
  | exit => exact ⟨names, h.release e.subjProcUuid⟩
  | other => exact ⟨names, h⟩

theorem step (h : Tells names k r m) (e : Event) :
    ∃ names', Tells names' (k.step e) (r.step e).1 ((r.step e).2.foldl Memory.effect m) := by
  rw [Roster.step_eq]
  obtain ⟨names₁, h₁⟩ := h.announce e.subjProcUuid e.pid e.exec
  obtain ⟨names₂, h₂⟩ := h₁.act (Roster.find?_announce r e.subjProcUuid e.pid e.exec)
  refine ⟨names₂, ?_⟩
  rw [List.foldl_append]
  exact h₂

end Tells

/-- The roster and the graph behind some events tell the chronicle of these events. -/
theorem Tells.run {names : List Name} {k : Chronicle} {t : Tracker} {m : Memory}
    (h : Tells names k t.roster m) (es : List Event) :
    ∃ names', Tells names' (k.run es) (t.run es).1.roster
      ((t.run es).2.foldl Memory.effect m) := by
  induction es generalizing names k t m with
  | nil => exact ⟨names, h⟩
  | cons e es ih =>
      obtain ⟨names₁, h₁⟩ := h.step e
      obtain ⟨names₂, h₂⟩ := ih (t := (t.process e).1) h₁
      refine ⟨names₂, ?_⟩
      rw [Tracker.run, List.foldl_append]
      exact h₂

end Chronicle

end Lineage

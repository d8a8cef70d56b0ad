import Mathlib.Logic.Function.Basic
import Lineage.Tracker.Basic

/-!
# The careers of processes

The ids of nodes come from one counter, so they show in which order the events came.  What an event
means does not depend on them.  A *career* holds the nodes of one process without their ids, in the
order in which the process got them.  A `Chronicle` holds the careers of all processes and the links
between nodes, which are named by their process and their place in its career.

`Chronicle.step` says what an event adds to a chronicle.  It reads and changes the careers of the
processes that the event touches (`Event.footprint`), and those only (`step_frame`, `step_local`).
So two events that touch no common process may come in either order (`step_comm`), and any two
orders that agree on the events that do touch one give the same chronicle (`run_rearranged`).
-/

namespace Lineage

open Lineage.Audit (Event)
open Lineage.Graph (RelClass Uuid)

/-! ## Events that touch a common process -/

namespace Audit

/-- The processes that an event touches: the one that acts, and the child that it starts. -/
def Event.footprint (e : Event) : List Uuid :=
  match e.kind with
  | .fork | .vfork => [e.subjProcUuid, e.retObjUuid1]
  | _ => [e.subjProcUuid]

/-- Two events touch a common process. -/
def Event.Meets (e e' : Event) : Prop := ∃ uuid ∈ e.footprint, uuid ∈ e'.footprint

instance (e e' : Event) : Decidable (e.Meets e') :=
  inferInstanceAs (Decidable (∃ uuid ∈ e.footprint, uuid ∈ e'.footprint))

/-- The second list holds the events of the first one in an order that keeps the order of any two
events which touch a common process.  The places in the first list tell equal events apart. -/
def Rearranges (es es' : List Event) : Prop :=
  ∃ order : List (Event × Nat), order.Perm es.zipIdx ∧ order.map Prod.fst = es' ∧
    order.Pairwise fun a b => b.2 < a.2 → ¬ a.1.Meets b.1

theorem Event.subj_mem_footprint (e : Event) : e.subjProcUuid ∈ e.footprint := by
  unfold footprint
  cases e.kind <;> exact List.mem_cons_self ..

end Audit

/-! ## Careers -/

/-- The nodes of one process. -/
structure Career where
  /-- The process number and command line of each node, the first node first. -/
  nodes : List (UInt32 × String) := []
  /-- Whether the last node is thin, if the process is live. -/
  live : Option Bool := none

namespace Career

/-- The place of the last node. -/
def last (c : Career) : Nat := c.nodes.length - 1

/-- The command line of the last node. -/
def cmdline (c : Career) : String :=
  match c.nodes.getLast? with
  | some node => node.2
  | none => ""

/-- The career with one more node. -/
def grow (c : Career) (pid : UInt32) (cmdline : String) (thin : Bool) : Career :=
  ⟨c.nodes ++ [(pid, cmdline)], some thin⟩

/-- The career with another process number and command line for its last node. -/
def amend (c : Career) (pid : UInt32) (cmdline : String) : Career :=
  { c with nodes := c.nodes.set c.last (pid, cmdline) }

/-- The career of a process that is announced. -/
def announce (c : Career) (pid : UInt32) (cmdline : String) : Career :=
  match c.live with
  | some _ => c
  | none => c.grow pid cmdline true

/-- The career of a child that is started. -/
def adopt (c : Career) (pid : UInt32) (cmdline : String) : Career :=
  match c.live with
  | some _ => c.amend pid cmdline
  | none => c.grow pid cmdline true

end Career

/-- A node by its process and its place in the career. -/
abbrev Name := Uuid × Nat

/-- A relation between two nodes by their names. -/
structure Link where
  /-- The node it starts from. -/
  src : Name
  /-- The node it leads to. -/
  dst : Name
  /-- Its class. -/
  cls : RelClass

/-- The careers of all processes and the links between their nodes. -/
structure Chronicle where
  /-- The career of each process. -/
  career : Uuid → Career := fun _ => {}
  /-- The links in the order in which they were added. -/
  links : List Link := []

namespace Chronicle

/-- The chronicle with another career for one process. -/
def set (k : Chronicle) (uuid : Uuid) (c : Career) : Chronicle :=
  { k with career := Function.update k.career uuid c }

/-- The chronicle with one more link. -/
def link (k : Chronicle) (src dst : Name) (cls : RelClass) : Chronicle :=
  { k with links := k.links ++ [⟨src, dst, cls⟩] }

/-- A process is announced. -/
def announce (k : Chronicle) (uuid : Uuid) (pid : UInt32) (cmdline : String) : Chronicle :=
  k.set uuid ((k.career uuid).announce pid cmdline)

/-- A live process starts a program. -/
def startProgram (k : Chronicle) (e : Event) : Chronicle :=
  let uuid := e.subjProcUuid
  let c := k.career uuid
  match c.live with
  | some true => k.set uuid { c.amend e.pid e.cmdline with live := some false }
  | _ =>
      (k.set uuid (c.grow e.pid e.cmdline false)).link (uuid, c.last) (uuid, c.nodes.length) .next

/-- A live process starts a child. -/
def startChild (k : Chronicle) (e : Event) : Chronicle :=
  let c := k.career e.subjProcUuid
  let d := (k.career e.retObjUuid1).adopt e.retval c.cmdline
  (k.set e.retObjUuid1 d).link (e.subjProcUuid, c.last) (e.retObjUuid1, d.last) .child

/-- What an event adds behind the announcement of its process. -/
def act (k : Chronicle) (e : Event) : Chronicle :=
  match e.kind with
  | .execve => k.startProgram e
  | .fork | .vfork => k.startChild e
  | .exit => k.set e.subjProcUuid { k.career e.subjProcUuid with live := none }
  | .other => k

/-- What an event adds. -/
def step (k : Chronicle) (e : Event) : Chronicle :=
  (k.announce e.subjProcUuid e.pid e.exec).act e

/-- What some events add. -/
def run (k : Chronicle) (es : List Event) : Chronicle := es.foldl step k

theorem career_set_self (k : Chronicle) (uuid : Uuid) (c : Career) :
    (k.set uuid c).career uuid = c :=
  Function.update_self ..

theorem career_set_ne (k : Chronicle) {uuid v : Uuid} (h : v ≠ uuid) (c : Career) :
    (k.set uuid c).career v = k.career v :=
  Function.update_of_ne h ..

/-! ## What an event leaves alone, and what it looks at -/

/-- An event leaves the careers of other processes alone. -/
theorem step_frame (k : Chronicle) {e : Event} {uuid : Uuid} (h : uuid ∉ e.footprint) :
    (k.step e).career uuid = k.career uuid := by
  have hsubj : uuid ≠ e.subjProcUuid := by
    rintro rfl
    exact h e.subj_mem_footprint
  have hannounce : (k.announce e.subjProcUuid e.pid e.exec).career uuid = k.career uuid :=
    career_set_ne k hsubj _
  rw [← hannounce, step]
  generalize k.announce e.subjProcUuid e.pid e.exec = k
  unfold Audit.Event.footprint at h
  unfold act
  cases hkind : e.kind with
  | execve =>
      unfold startProgram
      dsimp only
      split <;> exact career_set_ne _ hsubj _
  | exit => exact career_set_ne _ hsubj _
  | other => rfl
  | fork | vfork =>
      rw [hkind] at h
      have hret : uuid ≠ e.retObjUuid1 := by
        rintro rfl
        exact h (List.mem_cons_of_mem _ (List.mem_singleton_self _))
      exact career_set_ne _ hret _

/-- Two chronicles have the same careers for some processes, and the same new links. -/
structure Alike (uuids : List Uuid) (new : List Link) (k₀ k₀' k k' : Chronicle) : Prop where
  career : ∀ uuid ∈ uuids, k.career uuid = k'.career uuid
  links : k.links = k₀.links ++ new
  links' : k'.links = k₀'.links ++ new

namespace Alike

variable {uuids : List Uuid} {new : List Link} {k₀ k₀' k k' : Chronicle}

theorem set (h : Alike uuids new k₀ k₀' k k') (uuid : Uuid) (c : Career) :
    Alike uuids new k₀ k₀' (k.set uuid c) (k'.set uuid c) := by
  refine ⟨fun v hv => ?_, h.links, h.links'⟩
  by_cases hvu : v = uuid
  · subst hvu
    rw [career_set_self, career_set_self]
  · rw [career_set_ne k hvu, career_set_ne k' hvu]
    exact h.career v hv

theorem link (h : Alike uuids new k₀ k₀' k k') (src dst : Name) (cls : RelClass) :
    Alike uuids (new ++ [⟨src, dst, cls⟩]) k₀ k₀' (k.link src dst cls)
      (k'.link src dst cls) := by
  refine ⟨h.career, ?_, ?_⟩
  · rw [Chronicle.link, h.links, List.append_assoc]
  · rw [Chronicle.link, h.links', List.append_assoc]

end Alike

/-- An event looks at nothing but the careers of the processes that it touches. -/
theorem step_local {k k' : Chronicle} {e : Event}
    (h : ∀ uuid ∈ e.footprint, k.career uuid = k'.career uuid) :
    ∃ new, Alike e.footprint new k k' (k.step e) (k'.step e) := by
  have hstart : Alike e.footprint [] k k' k k' :=
    ⟨h, (List.append_nil _).symm, (List.append_nil _).symm⟩
  have hannounce : Alike e.footprint [] k k'
      (k.announce e.subjProcUuid e.pid e.exec) (k'.announce e.subjProcUuid e.pid e.exec) := by
    unfold announce
    rw [h _ e.subj_mem_footprint]
    exact hstart.set _ _
  unfold step
  generalize k.announce e.subjProcUuid e.pid e.exec = j at hannounce ⊢
  generalize k'.announce e.subjProcUuid e.pid e.exec = j' at hannounce ⊢
  have hsubj := hannounce.career _ e.subj_mem_footprint
  unfold act
  cases hkind : e.kind with
  | execve =>
      unfold startProgram
      dsimp only
      rw [hsubj]
      split
      · exact ⟨_, hannounce.set _ _⟩
      · exact ⟨_, (hannounce.set _ _).link _ _ _⟩
  | exit =>
      dsimp only
      rw [hsubj]
      exact ⟨_, hannounce.set _ _⟩
  | other => exact ⟨_, hannounce⟩
  | fork | vfork =>
      have hret : e.retObjUuid1 ∈ e.footprint := by
        rw [Audit.Event.footprint, hkind]
        exact List.mem_cons_of_mem _ (List.mem_singleton_self _)
      unfold startChild
      rw [hsubj, hannounce.career _ hret]
      exact ⟨_, (hannounce.set _ _).link _ _ _⟩

/-! ## The order of events -/

/-- Two chronicles say the same, their links perhaps in another order. -/
structure Same (k k' : Chronicle) : Prop where
  career : k.career = k'.career
  links : k.links.Perm k'.links

namespace Same

variable {k k' k'' : Chronicle}

theorem refl (k : Chronicle) : Same k k := ⟨rfl, .refl _⟩

theorem trans (h : Same k k') (h' : Same k' k'') : Same k k'' :=
  ⟨h.career.trans h'.career, h.links.trans h'.links⟩

theorem step (h : Same k k') (e : Event) : Same (k.step e) (k'.step e) := by
  obtain ⟨new, halike⟩ := step_local (e := e) fun uuid _ => congrFun h.career uuid
  refine ⟨funext fun uuid => ?_, ?_⟩
  · by_cases hu : uuid ∈ e.footprint
    · exact halike.career uuid hu
    · rw [step_frame k hu, step_frame k' hu, h.career]
  · rw [halike.links, halike.links']
    exact h.links.append_right new

theorem run (h : Same k k') (es : List Event) : Same (k.run es) (k'.run es) := by
  induction es generalizing k k' with
  | nil => exact h
  | cons e es ih => exact ih (h.step e)

end Same

/-- Two events that touch no common process may come in either order. -/
theorem step_comm (k : Chronicle) {a b : Event} (h : ¬ a.Meets b) :
    Same ((k.step a).step b) ((k.step b).step a) := by
  have hb : ∀ uuid ∈ a.footprint, uuid ∉ b.footprint := fun uuid ha hb => h ⟨uuid, ha, hb⟩
  have ha : ∀ uuid ∈ b.footprint, uuid ∉ a.footprint := fun uuid hb ha => h ⟨uuid, ha, hb⟩
  have hsameA : ∀ uuid ∈ a.footprint, k.career uuid = (k.step b).career uuid :=
    fun uuid hu => (step_frame k (hb uuid hu)).symm
  have hsameB : ∀ uuid ∈ b.footprint, k.career uuid = (k.step a).career uuid :=
    fun uuid hu => (step_frame k (ha uuid hu)).symm
  obtain ⟨newA, halikeA⟩ := step_local hsameA
  obtain ⟨newB, halikeB⟩ := step_local hsameB
  refine ⟨funext fun uuid => ?_, ?_⟩
  · by_cases hua : uuid ∈ a.footprint
    · rw [step_frame _ (hb uuid hua)]
      exact halikeA.career uuid hua
    · rw [step_frame (k.step b) hua]
      by_cases hub : uuid ∈ b.footprint
      · exact (halikeB.career uuid hub).symm
      · rw [step_frame _ hub, step_frame k hua, step_frame k hub]
  · rw [halikeA.links', halikeB.links', halikeA.links, halikeB.links, List.append_assoc,
      List.append_assoc]
    exact List.perm_append_comm.append_left _

/-- An event may come before others with which it touches no common process. -/
theorem run_advance (k : Chronicle) {before : List Event} {e : Event}
    (h : ∀ x ∈ before, ¬ x.Meets e) (after : List Event) :
    Same (k.run (before ++ e :: after)) (k.run (e :: (before ++ after))) := by
  induction before generalizing k with
  | nil => exact .refl _
  | cons x before ih =>
      have hrest := ih (k.step x) fun y hy => h y (List.mem_cons_of_mem _ hy)
      exact hrest.trans ((k.step_comm (h x (List.mem_cons_self ..))).run (before ++ after))

/-- Events with increasing places may be brought into any order that keeps the order of events which
touch a common process. -/
theorem run_reorder (k : Chronicle) {l order : List (Event × Nat)}
    (hsorted : l.Pairwise fun a b => a.2 < b.2) (hperm : order.Perm l)
    (horder : order.Pairwise fun a b => b.2 < a.2 → ¬ a.1.Meets b.1) :
    Same (k.run (order.map Prod.fst)) (k.run (l.map Prod.fst)) := by
  induction l generalizing k order with
  | nil =>
      obtain rfl := hperm.eq_nil
      exact .refl _
  | cons x l ih =>
      -- What stands before the first event in the new order had a later place, so it does not meet
      -- it.
      obtain ⟨before, after, rfl⟩ :=
        List.append_of_mem (hperm.mem_iff.mpr (List.mem_cons_self ..))
      have hrest : (before ++ after).Perm l := (List.perm_middle.symm.trans hperm).cons_inv
      obtain ⟨hfirst, hsorted⟩ := List.pairwise_cons.mp hsorted
      have hapart : ∀ y ∈ before.map Prod.fst, ¬ y.Meets x.1 := by
        intro y hy
        obtain ⟨y, hbefore, rfl⟩ := List.mem_map.mp hy
        have hplace := hfirst y (hrest.mem_iff.mp (List.mem_append_left _ hbefore))
        have hcross := (List.pairwise_append.mp horder).2.2 y hbefore x (List.mem_cons_self ..)
        exact hcross hplace
      have hkept : (before ++ after).Pairwise fun a b => b.2 < a.2 → ¬ a.1.Meets b.1 :=
        horder.sublist (List.Sublist.append_left (List.sublist_cons_self ..) _)
      have hadvance := k.run_advance hapart (after.map Prod.fst)
      rw [← List.map_append] at hadvance
      rw [List.map_append, List.map_cons]
      exact hadvance.trans (ih (k.step x.1) hsorted hrest hkept)

/-- Rearranged events give the same chronicle. -/
theorem run_rearranged {es es' : List Event} (h : Audit.Rearranges es es') (k : Chronicle) :
    Same (k.run es') (k.run es) := by
  obtain ⟨order, hperm, rfl, horder⟩ := h
  have hsorted : es.zipIdx.Pairwise fun a b => a.2 < b.2 := by
    rw [← List.pairwise_map (f := Prod.snd) (R := (· < ·)), List.zipIdx_map_snd]
    exact List.pairwise_lt_range'
  have hsame := k.run_reorder hsorted hperm horder
  rw [List.zipIdx_map_fst] at hsame
  exact hsame

end Chronicle

end Lineage

import Lineage.Proofs.Tracker.Roster

/-!
# The changes behind an event

Whatever its kind, an event changes the roster in at most two steps, and there are six of them
(`Roster.Change`).  Each comes with its operations.  What holds of operations because of the order
in which the tracker emits them is shown of these steps, and then of any number of them
(`Roster.Changes`).

`Roster.step_changes` takes an event apart, and `Tracker.run_changes` any number of events.  A step
that takes a live process as a child is the only one that leads to a node which is there already.
It does not happen where all children are new to the roster (`Roster.FreshChild`).
-/

namespace Lineage

open Lineage.Audit (Event)
open Lineage.Graph (NodeId Op RelClass Uuid)

namespace Audit

/-- The event starts a child. -/
def Event.StartsChild (e : Event) : Prop := e.kind = .fork ∨ e.kind = .vfork

instance (e : Event) : Decidable e.StartsChild :=
  inferInstanceAs (Decidable (e.kind = .fork ∨ e.kind = .vfork))

end Audit

namespace Roster

/-- A step from one roster to the next with its operations.  The steps that share a node with a live
child are there only if `shared` holds. -/
inductive Change (shared : Prop) : Roster → List Op → Roster → Prop where
  /-- A process that is not live is sighted. -/
  | appear {r : Roster} {uuid : Uuid} (pid : UInt32) (cmdline : String)
      (habsent : r.find? uuid = none) :
      Change shared r [.createNode r.nextId uuid pid cmdline] (r.renew uuid cmdline true).1
  /-- A thin process starts a program. -/
  | start {r : Roster} {uuid : Uuid} {id : NodeId} (pid : UInt32) (cmdline : String)
      (hlive : r.find? uuid = some id) :
      Change shared r [.updateNode id pid cmdline] ((r.setCmdline id cmdline).setThin id false)
  /-- A process starts another program. -/
  | restart {r : Roster} {uuid : Uuid} {id : NodeId} (pid : UInt32) (cmdline : String)
      (hlive : r.find? uuid = some id) :
      Change shared r [.createNode r.nextId uuid pid cmdline, .createRel id r.nextId .next]
        (r.renew uuid cmdline false).1
  /-- A process starts a child that is not live. -/
  | bear {r : Roster} {uuid child : Uuid} {id : NodeId} (pid : UInt32) (cmdline : String)
      (hlive : r.find? uuid = some id) (habsent : r.find? child = none) :
      Change shared r [.createNode r.nextId child pid cmdline, .createRel id r.nextId .child]
        (r.renew child cmdline true).1
  /-- A process starts a child that is live already. -/
  | share {r : Roster} {uuid child : Uuid} {id id' : NodeId} (pid : UInt32) (cmdline : String)
      (hshared : shared) (hlive : r.find? uuid = some id) (hchild : r.find? child = some id') :
      Change shared r [.updateNode id' pid cmdline, .createRel id id' .child]
        (r.setCmdline id' cmdline)
  /-- A process ends. -/
  | leave (r : Roster) (uuid : Uuid) : Change shared r [] (r.release uuid).1

/-- Any number of steps with their operations. -/
inductive Changes (shared : Prop) : Roster → List Op → Roster → Prop where
  | refl (r : Roster) : Changes shared r [] r
  | snoc {r r' r'' : Roster} {ops new : List Op} (h : Changes shared r ops r')
      (hnew : Change shared r' new r'') : Changes shared r (ops ++ new) r''

/-- The child that an event starts, if it starts one, is neither live nor the process itself. -/
def FreshChild (r : Roster) (e : Event) : Prop :=
  e.StartsChild → r.find? e.retObjUuid1 = none ∧ e.retObjUuid1 ≠ e.subjProcUuid

instance (r : Roster) (e : Event) : Decidable (r.FreshChild e) :=
  inferInstanceAs (Decidable (e.StartsChild → _ ∧ _))

variable {shared : Prop} {r r' r'' : Roster} {ops ops' : List Op}

theorem Changes.single (h : Change shared r ops r') : Changes shared r ops r' :=
  .snoc (.refl r) h

theorem Changes.trans (h : Changes shared r ops r') (h' : Changes shared r' ops' r'') :
    Changes shared r (ops ++ ops') r'' := by
  induction h' with
  | refl =>
      rw [List.append_nil]
      exact h
  | snoc _ hnew ih =>
      rw [← List.append_assoc]
      exact .snoc ih hnew

/-! ## What one step keeps -/

theorem Change.wellFormed (h : Change shared r ops r') (hwf : r.WellFormed) : r'.WellFormed := by
  cases h with
  | appear _ cmdline _ => exact hwf.renew _ cmdline true
  | start _ cmdline _ => exact (hwf.setCmdline _ cmdline).setThin _ false
  | restart _ cmdline _ => exact hwf.renew _ cmdline false
  | bear _ cmdline _ _ => exact hwf.renew _ cmdline true
  | share _ cmdline _ _ _ => exact hwf.setCmdline _ cmdline
  | leave uuid => exact hwf.release uuid

theorem Changes.wellFormed (h : Changes shared r ops r') (hwf : r.WellFormed) : r'.WellFormed := by
  induction h with
  | refl => exact hwf
  | snoc _ hnew ih => exact hnew.wellFormed ih

/-! ## One event -/

theorem announce_changes (r : Roster) (uuid : Uuid) (pid : UInt32) (cmdline : String) :
    Changes shared r (r.announce uuid pid cmdline).2.2 (r.announce uuid pid cmdline).1 := by
  cases hu : r.find? uuid with
  | some id =>
      rw [announce_of_live hu]
      exact .refl r
  | none =>
      rw [announce_of_absent hu]
      exact .single (.appear pid cmdline hu)

theorem startProgram_change {id : NodeId} {e : Event} (hlive : r.find? e.subjProcUuid = some id) :
    Change shared r (r.startProgram id e).2 (r.startProgram id e).1 := by
  unfold startProgram
  split
  · exact .start e.pid e.cmdline hlive
  · exact .restart e.pid e.cmdline hlive

theorem startChild_change {id : NodeId} {e : Event} (hlive : r.find? e.subjProcUuid = some id)
    (hfresh : shared ∨ r.find? e.retObjUuid1 = none) :
    Change shared r (r.startChild id e).2 (r.startChild id e).1 := by
  cases hc : r.find? e.retObjUuid1 with
  | some child =>
      have hshared : shared := hfresh.resolve_right (by simp [hc])
      rw [startChild_of_live hc]
      exact .share e.retval _ hshared hlive hc
  | none =>
      rw [startChild_of_absent hc]
      exact .bear e.retval _ hlive hc

theorem act_changes {id : NodeId} {e : Event} (hlive : r.find? e.subjProcUuid = some id)
    (hfresh : shared ∨ (e.StartsChild → r.find? e.retObjUuid1 = none)) :
    Changes shared r (r.act id e).2 (r.act id e).1 := by
  unfold act
  cases hkind : e.kind with
  | execve => exact .single (startProgram_change hlive)
  | fork => exact .single (startChild_change hlive (hfresh.imp_right fun h => h (.inl hkind)))
  | vfork => exact .single (startChild_change hlive (hfresh.imp_right fun h => h (.inr hkind)))
  | exit => exact .single (.leave r e.subjProcUuid)
  | other => exact .refl r

/-- The announcement of a process makes no other one live. -/
theorem find?_announce_ne (r : Roster) {uuid v : Uuid} (h : v ≠ uuid) (pid : UInt32)
    (cmdline : String) : (r.announce uuid pid cmdline).1.find? v = r.find? v := by
  cases hu : r.find? uuid with
  | some id => rw [announce_of_live hu]
  | none => rw [announce_of_absent hu, find?_renew, if_neg h]

/-- An event is a few steps. -/
theorem step_changes (r : Roster) (e : Event) (hfresh : shared ∨ r.FreshChild e) :
    Changes shared r (r.step e).2 (r.step e).1 := by
  rw [step_eq]
  refine (r.announce_changes e.subjProcUuid e.pid e.exec).trans (act_changes ?_ ?_)
  · exact find?_announce r e.subjProcUuid e.pid e.exec
  · refine hfresh.imp_right fun h hchild => ?_
    obtain ⟨habsent, hne⟩ := h hchild
    rw [find?_announce_ne r hne, habsent]

end Roster

/-! ## Many events -/

namespace Tracker

/-- Each child that some events start is new to the roster when it is started. -/
def FreshChildren (t : Tracker) : List Event → Prop
  | [] => True
  | e :: es => t.roster.FreshChild e ∧ (t.process e).1.FreshChildren es

instance decidableFreshChildren :
    (t : Tracker) → (es : List Event) → Decidable (t.FreshChildren es)
  | _, [] => isTrue trivial
  | t, e :: es =>
    have := decidableFreshChildren (t.process e).1 es
    inferInstanceAs (Decidable (t.roster.FreshChild e ∧ (t.process e).1.FreshChildren es))

theorem process_changes {shared : Prop} (t : Tracker) (e : Event)
    (hfresh : shared ∨ t.roster.FreshChild e) :
    Roster.Changes shared t.roster (t.process e).2 (t.process e).1.roster :=
  t.roster.step_changes e hfresh

/-- Some events are a number of steps. -/
theorem run_changes {shared : Prop} (t : Tracker) (es : List Event)
    (hfresh : shared ∨ t.FreshChildren es) :
    Roster.Changes shared t.roster (t.run es).2 (t.run es).1.roster := by
  induction es generalizing t with
  | nil => exact .refl t.roster
  | cons e es ih =>
      have hfirst := t.process_changes e (hfresh.imp_right And.left)
      exact hfirst.trans (ih (t.process e).1 (hfresh.imp_right And.right))

/-- Some events keep a roster well formed. -/
theorem wellFormed_run {t : Tracker} (h : t.roster.WellFormed) (es : List Event) :
    (t.run es).1.roster.WellFormed :=
  (t.run_changes es (.inl trivial)).wellFormed h

end Tracker

end Lineage

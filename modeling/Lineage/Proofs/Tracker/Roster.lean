import Lineage.Tracker.Basic

/-!
# The roster of live processes, looked up

What each change of a roster does to the two lookups, `find?` for the node of a process and `get?`
for the incarnation at a node, is one lemma each.  A roster is *well formed* (`Roster.WellFormed`)
when the two tables fit: live processes and incarnations are in bijection, and every id in use was
given out by the counter.  Each change of a roster keeps it so.
-/

namespace Lineage

open Lineage.Audit (Event)
open Lineage.Graph (NodeId Uuid Op)

namespace Roster

/-! ## The lookups -/

@[simp] theorem renew_snd (r : Roster) (uuid : Uuid) (cmdline : String) (thin : Bool) :
    (r.renew uuid cmdline thin).2 = r.nextId := rfl

@[simp] theorem nextId_renew (r : Roster) (uuid : Uuid) (cmdline : String) (thin : Bool) :
    (r.renew uuid cmdline thin).1.nextId = r.nextId + 1 := rfl

@[simp] theorem find?_renew (r : Roster) (uuid : Uuid) (cmdline : String) (thin : Bool) (v : Uuid) :
    (r.renew uuid cmdline thin).1.find? v = if v = uuid then some r.nextId else r.find? v := by
  simp [find?, renew]

/-- The new incarnation is at the new node, and the old one is gone. -/
theorem get?_renew (r : Roster) (uuid : Uuid) (cmdline : String) (thin : Bool) (id : NodeId) :
    (r.renew uuid cmdline thin).1.get? id =
      if r.find? uuid = some id then none
      else if id = r.nextId then some ⟨r.nextId, cmdline, thin⟩
      else r.get? id := by
  unfold get? find? renew
  cases h : r.index.get? uuid with
  | none => simp
  | some old =>
      by_cases ho : id = old
      · simp [ho]
      · simp [ho, Ne.symm ho]

theorem find?_release (r : Roster) (uuid v : Uuid) :
    (r.release uuid).1.find? v = if v = uuid then none else r.find? v := by
  unfold release
  cases h : r.find? uuid with
  | none =>
      by_cases hv : v = uuid
      · simp [hv, h]
      · simp [hv]
  | some id => simp [find?]

theorem get?_release (r : Roster) (uuid : Uuid) (id : NodeId) :
    (r.release uuid).1.get? id = if r.find? uuid = some id then none else r.get? id := by
  unfold release
  cases h : r.find? uuid with
  | none => simp
  | some old =>
      by_cases ho : id = old
      · simp [get?, ho]
      · simp [get?, ho, Ne.symm ho]

@[simp] theorem nextId_release (r : Roster) (uuid : Uuid) :
    (r.release uuid).1.nextId = r.nextId := by
  unfold release
  split <;> rfl

@[simp] theorem get?_edit (r : Roster) (id : NodeId) (f : Incarnation → Incarnation)
    (id' : NodeId) :
    (r.edit id f).get? id' = if id' = id then (r.get? id').map f else r.get? id' := by
  simp [get?, edit]

/-! ## The parts of an event -/

theorem sight_of_live {r : Roster} {uuid : Uuid} {id : NodeId} (h : r.find? uuid = some id)
    (cmdline : String) : r.sight uuid cmdline = (r, id, false) := by
  rw [sight, h]

theorem sight_of_absent {r : Roster} {uuid : Uuid} (h : r.find? uuid = none) (cmdline : String) :
    r.sight uuid cmdline = ((r.renew uuid cmdline true).1, r.nextId, true) := by
  rw [sight, h]
  rfl

theorem announce_of_live {r : Roster} {uuid : Uuid} {id : NodeId} (h : r.find? uuid = some id)
    (pid : UInt32) (cmdline : String) : r.announce uuid pid cmdline = (r, id, []) := by
  rw [announce, sight_of_live h]

theorem announce_of_absent {r : Roster} {uuid : Uuid} (h : r.find? uuid = none) (pid : UInt32)
    (cmdline : String) :
    r.announce uuid pid cmdline =
      ((r.renew uuid cmdline true).1, r.nextId, [.createNode r.nextId uuid pid cmdline]) := by
  rw [announce, sight_of_absent h]

theorem startProgram_of_thin {r : Roster} {id : NodeId} {i : Incarnation} (h : r.get? id = some i)
    (hthin : i.thin = true) (e : Event) :
    r.startProgram id e =
      ((r.setCmdline id e.cmdline).setThin id false, [.updateNode id e.pid e.cmdline]) := by
  simp [startProgram, h, Option.filter, hthin]

theorem startProgram_of_started {r : Roster} {id : NodeId} {i : Incarnation}
    (h : r.get? id = some i) (hthin : i.thin = false) (e : Event) :
    r.startProgram id e =
      ((r.renew e.subjProcUuid e.cmdline false).1,
        [.createNode r.nextId e.subjProcUuid e.pid e.cmdline, .createRel id r.nextId .next]) := by
  simp [startProgram, h, Option.filter, hthin]

theorem startChild_of_live {r : Roster} {e : Event} {child : NodeId}
    (h : r.find? e.retObjUuid1 = some child) (id : NodeId) :
    r.startChild id e =
      (r.setCmdline child (r.cmdlineAt id),
        [.updateNode child e.retval (r.cmdlineAt id), .createRel id child .child]) := by
  simp [startChild, sight_of_live h]

theorem startChild_of_absent {r : Roster} {e : Event} (h : r.find? e.retObjUuid1 = none)
    (id : NodeId) :
    r.startChild id e =
      ((r.renew e.retObjUuid1 (r.cmdlineAt id) true).1,
        [.createNode r.nextId e.retObjUuid1 e.retval (r.cmdlineAt id),
          .createRel id r.nextId .child]) := by
  simp [startChild, sight_of_absent h]

/-- What an event does behind the announcement of its process. -/
def act (r : Roster) (id : NodeId) (e : Event) : Roster × List Op :=
  match e.kind with
  | .execve => r.startProgram id e
  | .fork | .vfork => r.startChild id e
  | .exit => ((r.release e.subjProcUuid).1, [])
  | .other => (r, [])

/-- An event announces its process and acts. -/
theorem step_eq (r : Roster) (e : Event) :
    r.step e =
      let a := r.announce e.subjProcUuid e.pid e.exec
      let b := a.1.act a.2.1 e
      (b.1, a.2.2 ++ b.2) := by
  unfold step act
  cases e.kind <;> simp

/-- The process of an event is live when the event acts. -/
theorem find?_announce (r : Roster) (uuid : Uuid) (pid : UInt32) (cmdline : String) :
    (r.announce uuid pid cmdline).1.find? uuid = some (r.announce uuid pid cmdline).2.1 := by
  cases h : r.find? uuid with
  | some id =>
      rw [announce_of_live h]
      exact h
  | none =>
      rw [announce_of_absent h]
      simp

/-! ## Well-formed rosters -/

/-- The two tables of a roster fit. -/
structure WellFormed (r : Roster) : Prop where
  /-- Every live process has an incarnation at its node. -/
  has_incarnation : ∀ {uuid : Uuid} {id : NodeId}, r.find? uuid = some id → (r.get? id).isSome
  /-- Every incarnation is that of a live process. -/
  has_process : ∀ {id : NodeId} {i : Incarnation}, r.get? id = some i →
    ∃ uuid, r.find? uuid = some id
  /-- An incarnation carries the id of its node. -/
  id_eq : ∀ {id : NodeId} {i : Incarnation}, r.get? id = some i → i.id = id
  /-- No two live processes share a node. -/
  injective : ∀ {u v : Uuid} {id : NodeId}, r.find? u = some id → r.find? v = some id → u = v
  /-- The counter is past every node in use. -/
  lt_nextId : ∀ {uuid : Uuid} {id : NodeId}, r.find? uuid = some id → id < r.nextId

namespace WellFormed

theorem new : ({} : Roster).WellFormed where
  has_incarnation h := by cases h
  has_process h := by cases h
  id_eq h := by cases h
  injective h := by cases h
  lt_nextId h := by cases h

variable {r : Roster}

theorem renew (h : r.WellFormed) (uuid : Uuid) (cmdline : String) (thin : Bool) :
    (r.renew uuid cmdline thin).1.WellFormed where
  has_incarnation {v id} hv := by
    rw [find?_renew] at hv
    rw [get?_renew]
    split at hv
    · cases hv
      have hfresh : r.find? uuid ≠ some r.nextId := fun hu => Nat.lt_irrefl _ (h.lt_nextId hu)
      simp [hfresh]
    · rename_i hne
      have hother : r.find? uuid ≠ some id := fun hu => hne (h.injective hv hu)
      have hlt : id ≠ r.nextId := Nat.ne_of_lt (h.lt_nextId hv)
      simpa [hother, hlt] using h.has_incarnation hv
  has_process {id i} hi := by
    rw [get?_renew] at hi
    split at hi
    · cases hi
    · rename_i hold
      split at hi
      · rename_i hid
        exact ⟨uuid, by simp [hid]⟩
      · obtain ⟨v, hv⟩ := h.has_process hi
        have hne : v ≠ uuid := fun hvu => hold (hvu ▸ hv)
        exact ⟨v, by simpa [hne] using hv⟩
  id_eq {id i} hi := by
    rw [get?_renew] at hi
    split at hi
    · cases hi
    · split at hi
      · rename_i hid
        cases hi
        exact hid.symm
      · exact h.id_eq hi
  injective {u v id} hu hv := by
    rw [find?_renew] at hu hv
    split at hu
    · rename_i hu'
      split at hv
      · rename_i hv'
        rw [hu', hv']
      · cases hu
        exact absurd (h.lt_nextId hv) (Nat.lt_irrefl _)
    · split at hv
      · cases hv
        exact absurd (h.lt_nextId hu) (Nat.lt_irrefl _)
      · exact h.injective hu hv
  lt_nextId {v id} hv := by
    rw [find?_renew] at hv
    rw [nextId_renew]
    split at hv
    · cases hv
      exact Nat.lt_succ_self _
    · exact Nat.lt_succ_of_lt (h.lt_nextId hv)

theorem release (h : r.WellFormed) (uuid : Uuid) : (r.release uuid).1.WellFormed where
  has_incarnation {v id} hv := by
    rw [find?_release] at hv
    split at hv
    · cases hv
    · rename_i hne
      have hother : r.find? uuid ≠ some id := fun hu => hne (h.injective hv hu)
      simpa [get?_release, hother] using h.has_incarnation hv
  has_process {id i} hi := by
    rw [get?_release] at hi
    split at hi
    · cases hi
    · rename_i hold
      obtain ⟨v, hv⟩ := h.has_process hi
      have hne : v ≠ uuid := fun hvu => hold (hvu ▸ hv)
      exact ⟨v, by simpa [find?_release, hne] using hv⟩
  id_eq {id i} hi := by
    rw [get?_release] at hi
    split at hi
    · cases hi
    · exact h.id_eq hi
  injective {u v id} hu hv := by
    rw [find?_release] at hu hv
    split at hu
    · cases hu
    · split at hv
      · cases hv
      · exact h.injective hu hv
  lt_nextId {v id} hv := by
    rw [find?_release] at hv
    rw [nextId_release]
    split at hv
    · cases hv
    · exact h.lt_nextId hv

theorem edit (h : r.WellFormed) (id : NodeId) {f : Incarnation → Incarnation}
    (hf : ∀ i, (f i).id = i.id) : (r.edit id f).WellFormed where
  has_incarnation {v id'} hv := by
    have hi := h.has_incarnation hv
    by_cases hid : id' = id <;> simpa [hid] using hi
  has_process {id' i} hi := by
    rw [get?_edit] at hi
    split at hi
    · obtain ⟨i', hi', _⟩ := Option.map_eq_some_iff.mp hi
      exact h.has_process hi'
    · exact h.has_process hi
  id_eq {id' i} hi := by
    rw [get?_edit] at hi
    split at hi
    · obtain ⟨i', hi', rfl⟩ := Option.map_eq_some_iff.mp hi
      rw [hf, h.id_eq hi']
    · exact h.id_eq hi
  injective hu hv := h.injective hu hv
  lt_nextId hv := h.lt_nextId hv

theorem setCmdline (h : r.WellFormed) (id : NodeId) (cmdline : String) :
    (r.setCmdline id cmdline).WellFormed :=
  h.edit id fun _ => rfl

theorem setThin (h : r.WellFormed) (id : NodeId) (thin : Bool) : (r.setThin id thin).WellFormed :=
  h.edit id fun _ => rfl

end WellFormed

end Roster

end Lineage

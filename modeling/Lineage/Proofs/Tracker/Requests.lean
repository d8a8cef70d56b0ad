import Mathlib.Data.List.Nodup
import Lineage.Proofs.Tracker.Roster

/-!
# A roster under any requests

The tracker asks its roster for few of the sequences of changes that the roster admits.
`Roster.Request` is any one of them, with any arguments.  The two tables of a roster and its counter
fit whatever is asked (`Roster.serveAll_fits`).  There are as many incarnations as live processes,
since the index of the processes is a bijection between them (`Roster.WellFormed.size_eq`).
-/

namespace Lineage

open Lineage.Graph (NodeId Uuid)

namespace Table

variable {κ α : Type} [DecidableEq κ]

end Table

namespace Roster

/-- A request that may change a roster. -/
inductive Request where
  /-- For the node of a process, which gets a thin incarnation if it is not live. -/
  | sight (uuid : Uuid) (cmdline : String)
  /-- For a new incarnation of a process. -/
  | renew (uuid : Uuid) (cmdline : String) (thin : Bool)
  /-- To forget a process. -/
  | release (uuid : Uuid)
  /-- To change the incarnation at a node in all but its id. -/
  | edit (id : NodeId) (cmdline : Incarnation → String) (thin : Incarnation → Bool)

/-- What a request is answered. -/
structure Reply where
  /-- The node that the answer names, if it names one. -/
  id? : Option NodeId
  /-- Whether the request has put a new incarnation there. -/
  isNew : Bool

/-- The roster behind a request, and the answer. -/
def serve (r : Roster) : Request → Roster × Reply
  | .sight uuid cmdline =>
    let (r, id, isNew) := r.sight uuid cmdline
    (r, ⟨some id, isNew⟩)
  | .renew uuid cmdline thin =>
    let (r, id) := r.renew uuid cmdline thin
    (r, ⟨some id, true⟩)
  | .release uuid =>
    let (r, i?) := r.release uuid
    (r, ⟨i?.map Incarnation.id, false⟩)
  | .edit id cmdline thin =>
    (r.edit id fun i => { i with cmdline := cmdline i, thin := thin i },
      ⟨(r.get? id).map Incarnation.id, false⟩)

/-- The roster behind some requests, and the answers in order. -/
def serveAll (r : Roster) : List Request → Roster × List Reply
  | [] => (r, [])
  | request :: requests =>
    let (r, reply) := r.serve request
    let (r, replies) := r.serveAll requests
    (r, reply :: replies)

/-! ## One request -/

/-- What a request leads to.  It names a node below the counter behind it, and the one at the
counter before it if there is a new incarnation. -/
structure Serves (r : Roster) (reply : Reply) (r' : Roster) : Prop where
  wellFormed : r'.WellFormed
  nextId_eq : r'.nextId = r.nextId + if reply.isNew then 1 else 0
  lt_nextId : ∀ id ∈ reply.id?, id < r'.nextId
  id?_eq_of_isNew : reply.isNew = true → reply.id? = some r.nextId

/-- An incarnation is below the counter. -/
theorem WellFormed.id_lt_nextId {r : Roster} (h : r.WellFormed) {id : NodeId} {i : Incarnation}
    (hi : r.get? id = some i) : i.id < r.nextId := by
  obtain ⟨uuid, hu⟩ := h.has_process hi
  rw [h.id_eq hi]
  exact h.lt_nextId hu

theorem WellFormed.serves_renew {r : Roster} (h : r.WellFormed) (uuid : Uuid) (cmdline : String)
    (thin : Bool) : r.Serves ⟨some r.nextId, true⟩ (r.renew uuid cmdline thin).1 where
  wellFormed := h.renew uuid cmdline thin
  nextId_eq := rfl
  lt_nextId id hid := by
    cases hid
    exact Nat.lt_succ_self r.nextId
  id?_eq_of_isNew _ := rfl

/-- A well-formed roster serves every request. -/
theorem WellFormed.serve {r : Roster} (h : r.WellFormed) (request : Request) :
    r.Serves (r.serve request).2 (r.serve request).1 := by
  cases request with
  | sight uuid cmdline =>
      simp only [Roster.serve]
      cases hu : r.find? uuid with
      | some id =>
          rw [sight_of_live hu]
          refine ⟨h, rfl, fun id' hid => ?_, nofun⟩
          cases hid
          exact h.lt_nextId hu
      | none =>
          rw [sight_of_absent hu]
          exact h.serves_renew uuid cmdline true
  | renew uuid cmdline thin => exact h.serves_renew uuid cmdline thin
  | release uuid =>
      refine ⟨h.release uuid, nextId_release r uuid, fun id' hid => ?_, nofun⟩
      simp only [Roster.serve, nextId_release] at hid ⊢
      cases hu : r.find? uuid with
      | none => simp [Roster.release, hu] at hid
      | some id =>
          obtain ⟨i, hi, rfl⟩ := Option.map_eq_some_iff.mp hid
          simp only [Roster.release, hu] at hi
          exact h.id_lt_nextId hi
  | edit id cmdline thin =>
      refine ⟨h.edit id fun _ => rfl, rfl, fun id' hid => ?_, nofun⟩
      obtain ⟨i, hi, rfl⟩ := Option.map_eq_some_iff.mp hid
      exact h.id_lt_nextId hi

/-! ## Many requests -/

/-- Some requests keep a roster well formed, and the counter grows by the new incarnations. -/
theorem WellFormed.serveAll {r : Roster} (h : r.WellFormed) (requests : List Request) :
    (r.serveAll requests).1.WellFormed ∧
      (r.serveAll requests).1.nextId = r.nextId + (r.serveAll requests).2.countP Reply.isNew := by
  induction requests generalizing r with
  | nil => exact ⟨h, rfl⟩
  | cons request requests ih =>
      have hserves := h.serve request
      obtain ⟨hwf, hnext⟩ := ih hserves.wellFormed
      refine ⟨hwf, ?_⟩
      simp only [Roster.serveAll, hnext, hserves.nextId_eq, List.countP_cons]
      exact (Nat.add_assoc ..).trans (congrArg (r.nextId + ·) (Nat.add_comm ..))

/-- A process is sighted, renewed and forgotten, and comes back under another id. -/
example :
    let requests : List Request :=
      [.sight "U" "sh", .renew "U" "ls" false,
        .edit 1 (fun i => i.cmdline ++ " -l") Incarnation.thin, .release "U", .sight "U" ""]
    (({} : Roster).serveAll requests).2.map (fun reply => (reply.id?, reply.isNew)) =
      [(some 0, true), (some 1, true), (some 1, false), (some 1, false), (some 2, true)] := by
  decide

end Roster

end Lineage

import Lineage.Proofs.Session.Coordination

/-!
# How a session uses its ring buffers

A session whose settings are in order makes its ring buffers (`Threads.exists_start`), and nothing
that its threads do on them ever breaks the rules, whatever the number of parsers and slots and the
order of the steps (`Threads.ring_rules_kept`).
-/

namespace Lineage.Session

open Lineage.Audit (Source)
open Lineage.Graph (GraphStore)
open Lineage.RingBuffer (Machine)
open Stages (Stage)

/-- Settings that are in order name a capacity and at least one parser. -/
theorem Config.bounds_of_validate {c : Config} (h : c.validate = .ok ()) :
    0 < c.parserThreads ∧ RingBuffer.isCapacity c.ringCapacity = true := by
  unfold Config.validate at h
  unfold Config.parserThreads Config.ringCapacity
  split at h
  · cases h
  · cases hmode : c.mode with
    | simple => exact ⟨Nat.one_pos, by decide⟩
    | advanced threads capacity =>
        rw [hmode] at h
        simp only at h
        split at h
        · cases h
        · rename_i hthreads
          split at h
          · cases h
          · rename_i hcapacity
            exact ⟨Nat.pos_of_ne_zero hthreads, by simpa using hcapacity⟩

namespace Threads

variable {σ : Type} {c : Config} {s s' : Threads σ} {failure : Option String}

/-- The ring buffers can be made, and nobody has done anything yet. -/
theorem exists_start (hc : c.validate = .ok ()) (t : Tracker) (store : σ) (source : Source) :
    ∃ s, start c t store source = .ok s ∧ Coordinated c s.begun s := by
  obtain ⟨hpos, hcapacity⟩ := Config.bounds_of_validate hc
  have hjobs := @RingBuffer.new_eq_ok Job _ _ _ hcapacity Nat.one_pos hpos
  have hparsed := @RingBuffer.new_eq_ok Parsed _ _ _ hcapacity hpos Nat.one_pos
  refine ⟨_, by rw [start, hjobs, hparsed]; rfl, ?_⟩
  exact
    { jobs := ⟨_, Machine.orderly_new hjobs, rfl⟩
      parsed := Machine.orderly_new hparsed
      jobs_staffed := fun n a ha => by cases ha
      parsed_staffed := fun n a ha => by cases ha
      length := List.length_replicate
      inOrder := inOrder_preparations c.parserThreads
      planned := fun p hp => hp
      untaken := fun post _ => by
        cases post with
        | jobs role => exact RingBuffer.isHeld_empty _ _ _ role
        | parsed role => exact RingBuffer.isHeld_empty _ _ _ role
      taken := fun stage hstage post hpost htake =>
        absurd (take_mem_preparations_iff.mpr ⟨stage, hstage, hpost⟩) htake
      reserves := fun caller id count h => by cases h }

section Runs

variable [GraphStore σ]

/-- The stages get along for as long as they run. -/
theorem Coordinated.steps (hpos : 0 < c.parserThreads) (h : Coordinated c s.begun s)
    (hsteps : Steps c failure s s') : Coordinated c s'.begun s' := by
  induction hsteps with
  | refl => exact h
  | snoc stage _ hstep ih =>
      obtain ⟨s₁, heq, hnext⟩ := ih.step hpos hstep
      cases heq
      exact hnext
  | giveUp _ hsetup hopen ih =>
      obtain ⟨hnext, hsame⟩ := ih.giveUp hsetup hopen
      rwa [hsame]

end Runs

end Threads

end Lineage.Session

import Lineage.Graph.Recorder
import Lineage.Proofs.Session.Failure
import Lineage.Proofs.Session.Fallen

/-!
# When an ingest gets stuck

The queues between the stages have limits, so a stage may have to wait for the one behind it, and
that one for the next.  They all wait for the store in the end, and the keeper stops to take batches
when the store refuses one.  Still there is a step to take as long as a stage is not at its end,
whatever has raised the flag: a refusal, an invalid line or a journal that cannot be read.

This is so while the engine works.  Behind an engine that has fallen, the stages get stuck exactly
if there is not room enough for all that is handed on (`never_stuck_iff`).
-/

namespace Lineage.Session.Stages

open Lineage.Audit (Source)
open Lineage.Graph (GraphStore Memory Recorder)

variable {σ : Type} [GraphStore σ]

section Steps

variable {c : Config} {t : Tracker} {source : Source} {store : σ} {s : Stages σ}

/-- When nobody can take a step, all stages are at their ends exactly if the settings let them come
there. -/
theorem allEnded_iff_completes (hc : c.validate = .ok ())
    (hsteps : Steps c source.failure (start c t store source) s)
    (hstuck : ∀ stage, s.step c source.failure stage = none) :
    s.AllEnded ↔ c.completes source = true := by
  have hagrees := Agrees.steps hc hsteps
  unfold Config.completes
  cases hfits : c.batchFits with
  | true => exact iff_of_true (hagrees.allEnded hc hfits hstuck) rfl
  | false =>
      obtain ⟨_, hthreads, hcapacity⟩ := pos_of_validate hc
      obtain ⟨handed, hflow⟩ := hagrees.flow
      rw [Bool.false_or, decide_eq_true_iff]
      exact (Heaped.steps hfits hsteps).allEnded_iff hflow hthreads hcapacity hstuck

/-- Stages that are not all at their ends can take a step, if the settings let them come there. -/
theorem exists_step (hc : c.validate = .ok ())
    (hsteps : Steps c source.failure (start c t store source) s)
    (hcompletes : c.completes source = true) (hrunning : ¬ s.AllEnded) :
    ∃ stage s', s.step c source.failure stage = some s' := by
  refine Classical.byContradiction fun hnone => hrunning ?_
  refine (allEnded_iff_completes hc hsteps fun stage => ?_).mpr hcompletes
  cases hstep : s.step c source.failure stage with
  | none => rfl
  | some s' => exact absurd ⟨stage, s', hstep⟩ hnone

/-- From wherever the stages stand, there are steps to where nobody can take one, and there they are
all at their ends exactly if the settings let them come there. -/
theorem exists_stuck_iff (hc : c.validate = .ok ())
    (hsteps : Steps c source.failure (start c t store source) s) :
    ∃ s', Steps c source.failure s s' ∧ (∀ stage, s'.step c source.failure stage = none) ∧
      (s'.AllEnded ↔ c.completes source = true) := by
  obtain ⟨s', hmore, hstuck⟩ := exists_stuck (pos_of_validate hc).1 s
  exact ⟨s', hmore, hstuck, allEnded_iff_completes hc (hsteps.trans hmore) hstuck⟩

end Steps

/-- Whatever the settings, the journal and the store, there is a step to take as long as a stage is
not at its end, exactly if room for a batch may be asked for, or what is handed on has room enough
without the engine: a slot for every line and every mark.  Wherever the stages stand, the steps lead
to where nobody can take one, and exactly in this case all stages are at their ends there. -/
theorem never_stuck_iff {c : Config} (t : Tracker) (store : σ) (source : Source)
    (hc : c.validate = .ok ()) {s₀ : Stages σ} (hlaunch : launch c t store source = .ok s₀) :
    ((∀ s, Steps c source.failure s₀ s → ¬ s.AllEnded →
        ∃ stage s', s.step c source.failure stage = some s') ↔
      c.batchFits = true ∨ source.numberedLines.length + c.parserThreads ≤ c.ringCapacity) ∧
    ∀ s, Steps c source.failure s₀ s →
      (s.AllEnded → ∀ stage, s.step c source.failure stage = none) ∧
      ∃ s', Steps c source.failure s s' ∧ (∀ stage, s'.step c source.failure stage = none) ∧
        (s'.AllEnded ↔ c.batchFits = true ∨
          source.numberedLines.length + c.parserThreads ≤ c.ringCapacity) := by
  obtain ⟨-, rfl⟩ := launch_eq_ok_iff.mp hlaunch
  have hcompletes : c.completes source = true ↔
      c.batchFits = true ∨ source.numberedLines.length + c.parserThreads ≤ c.ringCapacity := by
    rw [Config.completes, Bool.or_eq_true, decide_eq_true_iff]
  simp only [← hcompletes]
  refine ⟨⟨fun hsteps => ?_, fun hends s hsteps => exists_step hc hsteps hends⟩,
    fun s hsteps => ⟨fun hended => hended.step_eq_none c _, exists_stuck_iff hc hsteps⟩⟩
  obtain ⟨s, hreach, hstuck, hended⟩ := exists_stuck_iff hc (.refl (start c t store source))
  refine hended.mp (Classical.byContradiction fun hrunning => ?_)
  obtain ⟨stage, s', hstep⟩ := hsteps s hreach hrunning
  cases (hstuck stage).symm.trans hstep

/-- The store has refused the first batch and takes no other, and the reader waits with its third
line for room behind the second one. -/
theorem never_stuck_iff_refused :
    ∃ (c : Config) (store : Recorder) (source : Source) (s : Stages Recorder),
      c.validate = .ok () ∧ launch c {} store source = .ok (start c {} store source) ∧
        Steps c source.failure (start c {} store source) s ∧
          s.isClosed = true ∧ s.keeper.refusal = some (.transaction 0 "disk full") ∧
            s.step c source.failure .reader = none ∧
              ∃ stage s', s.step c source.failure stage = some s' := by
  let c : Config := ⟨.advanced 2 1, 1, false⟩
  let store : Recorder := { limit := some 0 }
  let source : Source := ⟨sighting "P" ++ sighting "Q" ++ sighting "R", some "gone"⟩
  let schedule :=
    [Stage.reader, .reader] ++ List.replicate 2 (.parser 0) ++ List.replicate 4 .engine ++
    List.replicate 4 .keeper ++ List.replicate 3 .reader
  let s := follow c (some "gone") (start c {} store source) schedule
  have hsteps : Steps c (some "gone") (start c {} store source) s := steps_follow _ schedule
  have hwaits : (s.step c (some "gone") .reader).isNone = true := by decide +kernel
  have hrunning : ¬ s.AllEnded := by
    rw [← isSome_result_iff]
    decide +kernel
  have hlaunch : launch c {} store source = .ok (start c {} store source) :=
    launch_eq_ok_iff.mpr ⟨by decide, rfl⟩
  have henabled := (never_stuck_iff {} store source rfl hlaunch).1.mpr (.inl (by decide)) s hsteps
  exact ⟨c, store, source, s, rfl, hlaunch, hsteps, by decide +kernel, by decide +kernel,
    Option.isNone_iff_eq_none.mp hwaits, henabled hrunning⟩

/-- With one slot and batches that no room may be asked for, the stages get stuck on three lines. -/
theorem never_stuck_iff_oversized :
    ∃ (c : Config) (source : Source) (s : Stages Memory),
      c = ⟨.advanced 1 1, 18446744073709551615, true⟩ ∧ c.validate = .ok () ∧
        source.bytes = sighting "P" ++ sighting "Q" ++ sighting "R" ∧ source.failure = none ∧
          launch c {} ({} : Memory) source = .ok (start c {} {} source) ∧
            Steps c none (start c {} {} source) s ∧
              (∀ stage, s.step c none stage = none) ∧ ¬ s.AllEnded := by
  let c : Config := ⟨.advanced 1 1, 18446744073709551615, true⟩
  let source : Source := ⟨sighting "P" ++ sighting "Q" ++ sighting "R", none⟩
  have hnever : ¬ c.completes source = true := by decide +kernel
  have hstart : Steps c source.failure (start c {} ({} : Memory) source)
      (start c {} {} source) := .refl _
  obtain ⟨s, hsteps, hstuck, hended⟩ := exists_stuck_iff rfl hstart
  exact ⟨c, source, s, rfl, rfl, rfl, rfl, launch_eq_ok_iff.mpr ⟨by decide, rfl⟩,
    hsteps, hstuck, fun hall => hnever (hended.mp hall)⟩

end Lineage.Session.Stages

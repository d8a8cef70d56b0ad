import Lineage.Proofs.Session.Progress

/-!
# The schedule does not matter

The stages of an ingest work side by side, and their steps may come in any order.  However they
come, the ingest ends, and it ends as that of a session that does one thing after the other
(`schedule_independence`).  The batches it offers are those of `referenceBatches`, up to the first
one that is refused; `exists_batches_eq` says how these are cut.

The settings may not ask for more memory than there can be (`Config.fits`).  If they do, the ingest
does not even begin, or it ends without its engine (`schedule_independence_oversized`).
-/

namespace Lineage.Session.Stages

open Lineage.Audit (LineError Source)
open Lineage.Graph (GraphStore Memory Op StoreError)

variable {σ : Type} [GraphStore σ]

/-- Whatever the order of the steps, an ingest of a journal that can be read to its end comes to an
end itself, if its settings ask for no more memory than there can be.  Then the store was offered
the batches of the reference in order up to the first one that it refused, and the result, the store
and, if all went well, the tracker are those of the reference. -/
theorem schedule_independence {c : Config} (t : Tracker) (store : σ) {source : Source}
    (hc : c.validate = .ok ()) (hfits : c.fits = true) (hfailure : source.failure = none) :
    launch c t store source = .ok (start c t store source) ∧
    (∀ run : Nat → Stages σ, run 0 = start c t store source →
      ¬ ∀ n, ∃ stage, (run n).step c none stage = some (run (n + 1))) ∧
    ∀ s, Steps c none (start c t store source) s → (∀ stage, s.step c none stage = none) →
      s.result = some (ingestJournal c t store source).result ∧
        s.offered = offeredBatches store (referenceBatches c t source) ∧
          s.store = (ingestJournal c t store source).store ∧
            ((ingestJournal c t store source).result.isOk = true →
              s.engine.tracker = (ingestJournal c t store source).tracker) := by
  obtain ⟨hrings, hbatch⟩ := Bool.and_eq_true_iff.mp hfits
  refine ⟨launch_eq_ok_iff.mpr ⟨hrings, rfl⟩, fun run _ => not_endless hc run,
    fun s hsteps hstuck => ?_⟩
  rw [← hfailure] at hsteps hstuck
  have hagrees := Agrees.steps hc hsteps
  obtain ⟨result, hresult⟩ := hagrees.exists_result hc hbatch hstuck
  obtain ⟨rfl, hoffered, hstore, htracker⟩ := hagrees.result_eq hc hbatch hfailure hresult
  exact ⟨hresult, hoffered, hstore, htracker⟩

/-- A blank line and one that is refused, with more parsers than there are slots. -/
theorem schedule_independence_refused :
    ∃ (c : Config) (source : Source) (s : Stages Memory),
      c.validate = .ok () ∧ c.fits = true ∧ source.failure = none ∧
        source.lines.length = 2 ∧
        Steps c none (start c {} {} source) s ∧
          s.result = some (ingestJournal c {} ({} : Memory) source).result := by
  let c : Config := ⟨.advanced 2 1, 1, false⟩
  let source : Source := ⟨[10, 91, 93, 10], none⟩
  let schedule := (List.replicate 40 [Stage.reader, .parser 1, .parser 0, .engine, .keeper]).flatten
  have hend : (follow c none (start c {} ({} : Memory) source) schedule).result.isSome = true := by
    decide +kernel
  have hsteps := @steps_follow Memory _ c none (start c {} {} source) schedule
  have hfits : c.fits = true := by decide
  have h := (schedule_independence {} ({} : Memory) rfl hfits rfl).2.2 _ hsteps
    ((isSome_result_iff.mp hend).step_eq_none c none)
  exact ⟨c, source, _, rfl, hfits, rfl, by decide +kernel, hsteps, h.1⟩

/-- Settings that are in order may ask for too much.  With too many slots an ingest panics before it
begins.  With too large batches its engine falls, and it fails on a journal that the reference
reports. -/
theorem schedule_independence_oversized :
    (∃ c : Config, c.validate = .ok () ∧
      launch c {} ({} : Memory) ⟨[], none⟩ = .error .capacityOverflow) ∧
    ∃ (c : Config) (s : Stages Memory), c.validate = .ok () ∧
      launch c {} ({} : Memory) ⟨[], none⟩ = .ok (start c {} {} ⟨[], none⟩) ∧
        Steps c none (start c {} {} ⟨[], none⟩) s ∧
          (∀ stage, s.step c none stage = none) ∧
          s.result = some (.error (.panicked "engine")) ∧
            (ingestJournal c {} ({} : Memory) ⟨[], none⟩).result.isOk = true := by
  constructor
  · exact ⟨⟨.advanced 1 9223372036854775808, 512, true⟩, rfl, if_neg (by decide)⟩
  · let c : Config := ⟨.advanced 1 1, 18446744073709551615, true⟩
    let schedule := (List.replicate 6 [Stage.reader, .parser 0, .keeper]).flatten
    let s := follow c none (start c {} ({} : Memory) ⟨[], none⟩) schedule
    have hsteps : Steps c none (start c {} ({} : Memory) ⟨[], none⟩) s :=
      steps_follow _ schedule
    have hend : s.result.isSome = true := by decide +kernel
    have hagrees : Agrees c {} ⟨[], none⟩ {} s := .steps rfl hsteps
    exact ⟨c, s, rfl, launch_eq_ok_iff.mpr ⟨by decide, rfl⟩, hsteps,
      (isSome_result_iff.mp hend).step_eq_none c none, hagrees.result_fallen (by decide) hend,
      by decide +kernel⟩

end Lineage.Session.Stages

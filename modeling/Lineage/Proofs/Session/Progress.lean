import Lineage.Proofs.Session.Commitment

/-!
# An ingest comes to its end

Every step makes an ingest lighter (`move_lighter`).  What lines and marks weigh on their way to the
engine counts most, then the operations that the engine still has to cut, and least the batches that
wait for the store.  So no run goes on for ever (`not_endless`).

And no run gets stuck while the engine works.  A stage that cannot take a step waits for another one
(`reader_waits` and the lemmas after it), and these waits make no circle: if nobody can take a step,
all stages are at their ends (`Agrees.allEnded`).
-/

namespace Lineage.Session

open Lineage.Audit (Event LineError Source isBlankLine)
open Lineage.Graph (GraphStore Op StoreError)

/-! ## Weights -/

/-- What a reader has to hand on, with `threads` marks in all. -/
def ReaderPoint.weight (threads : Nat) : ReaderPoint → Nat
  | .reading lines _ _ => 7 * lines.length + 6 * threads + 3
  | .handing _ lines _ _ => 7 * lines.length + 6 * threads + 9
  | .failing _ => 6 * threads + 2
  | .closing left _ => 6 * left + 1
  | .ended _ => 0

/-- Whether a parser holds something. -/
def ParserPoint.isHolding : ParserPoint → Bool
  | .holding _ => true
  | _ => false

@[simp] theorem ParserPoint.isHolding_waiting : ParserPoint.waiting.isHolding = false := rfl

@[simp] theorem ParserPoint.isHolding_holding (p : Parsed) :
    (ParserPoint.holding p).isHolding = true := rfl

@[simp] theorem Parsed.isHolding_after (p : Parsed) : p.after.isHolding = false := by
  cases p <;> rfl

/-- How far the engine is from its next line. -/
def EnginePoint.rank : EnginePoint → Nat
  | .ended | .fallen => 0
  | .lastCutOff => 1
  | .sendingLast _ => 2
  | .lastCheck => 3
  | .taking => 4
  | .checking _ | .raising | .cutting | .cutOff => 5
  | .sending _ => 6

/-- How far the keeper is from its next batch. -/
def KeeperPoint.rank : KeeperPoint → Nat
  | .ended _ => 0
  | .closing _ => 1
  | .raising _ => 2
  | .taking => 3
  | .offering _ => 4

namespace Stages

variable {σ : Type}

/-- What is on its way to the engine weighs less the nearer it is. -/
def load (c : Config) (s : Stages σ) : Nat :=
  s.reader.weight c.parserThreads + 5 * s.jobs.length + 4 * s.parsers.countP ParserPoint.isHolding +
    3 * s.parsed.length + 2 * s.engine.early.length

/-- The weight of an ingest. -/
def weight (c : Config) (s : Stages σ) : Nat × Nat × Nat :=
  (s.load c + s.engineAt.isChecking.toNat, 2 * s.engine.ops.length + s.engineAt.rank,
    2 * s.batches.length + s.keeper.rank)

/-- Less in the first part, or as much there and less in the next one. -/
def Lighter : Nat × Nat × Nat → Nat × Nat × Nat → Prop :=
  Prod.Lex (· < ·) (Prod.Lex (· < ·) (· < ·))

theorem lighter_wf : WellFounded Lighter :=
  (Prod.lex Nat.lt_wfRel (Prod.lex Nat.lt_wfRel Nat.lt_wfRel)).wf

theorem Lighter.first {a a' : Nat} {b b' : Nat × Nat} (h : a < a') : Lighter (a, b) (a', b') :=
  .left _ _ h

theorem Lighter.second {a a' b b' d d' : Nat} (h : a = a') (h' : b < b') :
    Lighter (a, b, d) (a', b', d') := by
  subst h
  exact .right _ (.left _ _ h')

theorem Lighter.third {a b d d' : Nat} (h : d < d') : Lighter (a, b, d) (a, b, d') :=
  .right _ (.right _ h)

section Moves

variable {c : Config} {failure : Option String} {s s' : Stages σ}

theorem readerMove_lighter (hmove : ReaderMove c failure s s') :
    Lighter (s'.weight c) (s.weight c) := by
  have hload : s'.load c < s.load c → s'.engineAt = s.engineAt →
      Lighter (s'.weight c) (s.weight c) := by
    intro hlt hat
    refine Lighter.first ?_
    rw [hat]
    exact Nat.add_lt_add_right hlt _
  cases hmove with
  | stopEarly hat =>
      refine hload ?_ rfl
      simp only [load, hat, ReaderPoint.weight]
      omega
  | reachEnd hat =>
      refine hload ?_ rfl
      simp only [load, hat, ReaderPoint.weight]
      omega
  | fail hat =>
      refine hload ?_ rfl
      simp only [load, hat, ReaderPoint.weight]
      omega
  | passBlank hat =>
      refine hload ?_ rfl
      simp only [load, hat, ReaderPoint.weight, List.length_cons]
      omega
  | read hat =>
      refine hload ?_ rfl
      simp only [load, hat, ReaderPoint.weight, List.length_cons]
      omega
  | hand hat =>
      refine hload ?_ rfl
      simp only [load, hat, ReaderPoint.weight, List.length_append, List.length_singleton]
      omega
  | raise hat =>
      refine hload ?_ rfl
      simp only [load, hat, ReaderPoint.weight]
      omega
  | closeAll hat =>
      refine hload ?_ rfl
      simp only [load, hat, ReaderPoint.weight, List.length_append, List.length_replicate]
      omega
  | closeOne hat =>
      refine hload ?_ rfl
      simp only [load, hat, ReaderPoint.weight, List.length_append, List.length_singleton]
      omega
  | finish hat =>
      refine hload ?_ rfl
      simp only [load, hat, ReaderPoint.weight]
      omega

theorem parserMove_lighter (hmove : ParserMove c s s') : Lighter (s'.weight c) (s.weight c) := by
  cases hmove with
  | take hparsers hjobs =>
      refine Lighter.first (Nat.add_lt_add_right ?_ _)
      simp only [load, hparsers, hjobs, List.length_cons, List.countP_append, List.countP_cons,
        ParserPoint.isHolding_holding, ParserPoint.isHolding_waiting, Bool.false_eq_true, if_true,
        if_false]
      omega
  | pass hparsers =>
      refine Lighter.first (Nat.add_lt_add_right ?_ _)
      simp only [load, hparsers, List.length_append, List.length_singleton, List.countP_append,
        List.countP_cons, ParserPoint.isHolding_holding, Parsed.isHolding_after, Bool.false_eq_true,
        if_true, if_false]
      omega

/-- Going on makes the load less, or leaves the engine waiting. -/
theorem proceed_load (c : Config) (s : Stages σ) :
    s.proceed.load c + s.proceed.engineAt.isChecking.toNat < s.load c ∨
      s.proceed.load c + s.proceed.engineAt.isChecking.toNat = s.load c ∧
        2 * s.proceed.engine.ops.length + s.proceed.engineAt.rank =
          2 * s.engine.ops.length + 4 := by
  rcases s.proceed_eq with ⟨_, heq⟩ | ⟨result, hsome, heq⟩ <;> rw [heq]
  · exact .inr ⟨rfl, rfl⟩
  · refine .inl ?_
    have hshort : (s.engine.early.filter fun p => p.1 != s.engine.nextSeq).length <
        s.engine.early.length := by
      refine List.length_filter_lt_length_iff_exists.mpr ⟨_, Flow.mem_of_lookup hsome, ?_⟩
      simp
    simp only [load, EnginePoint.isChecking, Bool.toNat_true]
    omega

theorem proceed_lighter {u : Stages σ} {a b d : Nat}
    (h : u.load c < a ∨ u.load c = a ∧ 2 * u.engine.ops.length + 4 < b) :
    Lighter (u.proceed.weight c) (a, b, d) := by
  rcases proceed_load c u with hlt | ⟨heq, hops⟩
  · exact Lighter.first (by omega)
  · rcases h with hlt | ⟨hsame, hless⟩
    · exact Lighter.first (by omega)
    · exact Lighter.second (by omega) (by omega)

theorem engineMove_lighter (hsize : 0 < c.batchSize) (hmove : EngineMove c s s') :
    Lighter (s'.weight c) (s.weight c) := by
  have hrank : ∀ {point : EnginePoint} {batches : List (List Op)} {flag : Bool},
      point.isChecking = s.engineAt.isChecking → point.rank < s.engineAt.rank →
        Lighter (({ s with batches := batches, engineAt := point, flag := flag } :
          Stages σ).weight c) (s.weight c) := by
    intro point batches flag hchecking hlt
    exact Lighter.second (congrArg (s.load c + ·.toNat) hchecking) (Nat.add_lt_add_left hlt _)
  cases hmove with
  | takeLine hat hfinished hparsed =>
      refine proceed_lighter (.inl ?_)
      simp only [load, hparsed, List.length_cons]
      omega
  | takeMark hat hfinished hparsed =>
      refine Lighter.first (Nat.add_lt_add_right ?_ _)
      simp only [load, hparsed, List.length_cons]
      omega
  | drop hat =>
      refine proceed_lighter (.inl ?_)
      rw [hat]
      exact Nat.lt_succ_self _
  | use hat =>
      refine Lighter.first ?_
      rw [hat]
      exact Nat.lt_succ_self _
  | skip hat =>
      refine Lighter.first ?_
      rw [hat]
      exact Nat.lt_succ_self _
  | condemn hat =>
      refine Lighter.first ?_
      rw [hat]
      exact Nat.lt_succ_self _
  | raise hat =>
      refine proceed_lighter (.inr ⟨?_, ?_⟩) <;> rw [hat]
      · rfl
      · exact Nat.lt_succ_self _
  | goOn hat =>
      refine proceed_lighter (.inr ⟨?_, ?_⟩) <;> rw [hat]
      · rfl
      · exact Nat.lt_succ_self _
  | raiseCutOff hat =>
      refine proceed_lighter (.inr ⟨?_, ?_⟩) <;> rw [hat]
      · rfl
      · exact Nat.lt_succ_self _
  | cut hat hlong =>
      refine Lighter.second (by rw [hat]; rfl) ?_
      simp only [hat, EnginePoint.rank, List.length_drop]
      omega
  | takeLast hat =>
      refine Lighter.second (by rw [hat]; rfl) ?_
      simp only [hat, EnginePoint.rank, List.length_nil]
      omega
  | finish hat => exact hrank (by rw [hat]; rfl) (by simp [hat, EnginePoint.rank])
  | leave hat => exact hrank (by rw [hat]; rfl) (by simp [hat, EnginePoint.rank])
  | send hat => exact hrank (by rw [hat]; rfl) (by simp [hat, EnginePoint.rank])
  | cutOff hat => exact hrank (by rw [hat]; rfl) (by simp [hat, EnginePoint.rank])
  | dropLast hat => exact hrank (by rw [hat]; rfl) (by simp [hat, EnginePoint.rank])
  | sendLast hat => exact hrank (by rw [hat]; rfl) (by simp [hat, EnginePoint.rank])
  | cutOffLast hat => exact hrank (by rw [hat]; rfl) (by simp [hat, EnginePoint.rank])
  | raiseLast hat => exact hrank (by rw [hat]; rfl) (by simp [hat, EnginePoint.rank])

theorem keeperMove_lighter [GraphStore σ] (hmove : KeeperMove s s') :
    Lighter (s'.weight c) (s.weight c) := by
  cases hmove with
  | take hat hbatches =>
      refine Lighter.third ?_
      simp only [hat, hbatches, KeeperPoint.rank, List.length_cons]
      omega
  | finish hat =>
      refine Lighter.third ?_
      simp only [hat, KeeperPoint.rank]
      omega
  | accept hat =>
      refine Lighter.third ?_
      simp only [hat, KeeperPoint.rank]
      omega
  | refuse hat =>
      refine Lighter.third ?_
      simp only [hat, KeeperPoint.rank]
      omega
  | raise hat =>
      refine Lighter.third ?_
      simp only [hat, KeeperPoint.rank]
      omega
  | close hat =>
      refine Lighter.third ?_
      simp only [hat, KeeperPoint.rank, List.length_nil]
      omega

/-- Every step makes an ingest lighter. -/
theorem move_lighter [GraphStore σ] (hsize : 0 < c.batchSize) (hmove : Move c failure s s') :
    Lighter (s'.weight c) (s.weight c) := by
  cases hmove with
  | reader hreader => exact readerMove_lighter hreader
  | parser hparser => exact parserMove_lighter hparser
  | engine hengine => exact engineMove_lighter hsize hengine
  | keeper hkeeper => exact keeperMove_lighter hkeeper

/-- No run goes on for ever. -/
theorem not_endless [GraphStore σ] (hc : c.validate = .ok ()) (run : Nat → Stages σ) :
    ¬ ∀ n, ∃ stage, (run n).step c failure stage = some (run (n + 1)) := by
  intro hrun
  obtain ⟨hsize, _, _⟩ := pos_of_validate hc
  have hlighter : ∀ n, Lighter ((run (n + 1)).weight c) ((run n).weight c) := by
    intro n
    obtain ⟨stage, hstep⟩ := hrun n
    exact move_lighter hsize (step_move hstep)
  have hnone : ∀ w n, (run n).weight c ≠ w := by
    intro w
    induction w using lighter_wf.induction with
    | _ w ih =>
        intro n heq
        exact ih _ (heq ▸ hlighter n) (n + 1) rfl
  exact hnone _ 0 rfl

/-- From wherever the stages stand, there are steps to where nobody can take one. -/
theorem exists_stuck [GraphStore σ] (hsize : 0 < c.batchSize) (s : Stages σ) :
    ∃ s', Steps c failure s s' ∧ ∀ stage, s'.step c failure stage = none := by
  -- Every step makes the ingest lighter.
  generalize hw : s.weight c = w
  induction w using lighter_wf.induction generalizing s with
  | _ w ih =>
      by_cases hstuck : ∀ stage, s.step c failure stage = none
      · exact ⟨s, .refl s, hstuck⟩
      · obtain ⟨stage, hsome⟩ := Classical.not_forall.mp hstuck
        obtain ⟨s₁, hstep⟩ := Option.ne_none_iff_exists'.mp hsome
        obtain ⟨s', hsteps, hstuck'⟩ :=
          ih _ (hw ▸ move_lighter hsize (step_move hstep)) s₁ rfl
        exact ⟨s', .head hstep hsteps, hstuck'⟩

end Moves

/-! ## Waiting -/

section Waits

variable {c : Config} {failure : Option String} {s : Stages σ}

/-- The reader waits for a parser to take a job. -/
theorem reader_waits (h : s.stepReader c failure = none) (hthreads : 0 < c.parserThreads)
    (hcapacity : 0 < c.ringCapacity) (hleft : s.reader.left c.parserThreads ≤ c.parserThreads) :
    (∃ result, s.reader = .ended result) ∨
      s.jobs ≠ [] ∧ 0 < s.reader.left c.parserThreads := by
  unfold stepReader at h
  cases hat : s.reader with
  | reading lines line seq =>
      rw [hat] at h
      simp only at h
      split at h
      · cases h
      · split at h
        · split at h <;> cases h
        · split at h <;> cases h
  | handing text lines line seq =>
      rw [hat] at h
      simp only at h
      split at h
      · cases h
      · rename_i hfull
        refine .inr ⟨fun hnil => ?_, hthreads⟩
        rw [hnil] at hfull
        exact hfull hcapacity
  | failing e =>
      rw [hat] at h
      cases h
  | closing left result =>
      rw [hat] at h hleft
      cases left with
      | zero => cases h
      | succ left =>
          refine .inr ⟨fun hnil => ?_, Nat.succ_pos _⟩
          simp only [hnil, List.length_nil, Nat.zero_add, ReaderPoint.left] at h hleft
          split at h
          · rw [if_pos (by omega)] at h
            cases h
          · cases h
  | ended result => exact .inl ⟨result, rfl⟩

/-- A parser waits for a job, or for room behind what was parsed. -/
theorem parser_waits (h : ∀ i, s.stepParser c i = none) {p : ParserPoint} (hp : p ∈ s.parsers) :
    p.isEnded = true ∨ p = .waiting ∧ s.jobs = [] ∨
      p.isHolding = true ∧ c.ringCapacity ≤ s.parsed.length := by
  obtain ⟨i, hi⟩ := List.mem_iff_getElem?.mp hp
  have hstep := h i
  unfold stepParser at hstep
  rw [hi] at hstep
  cases p with
  | waiting =>
      simp only at hstep
      split at hstep
      · exact .inr (.inl ⟨rfl, ‹_›⟩)
      · cases hstep
  | holding x =>
      refine .inr (.inr ⟨rfl, Nat.le_of_not_lt fun hroom => ?_⟩)
      simp only [hroom, if_true] at hstep
      cases hstep
  | ended => exact .inl rfl

/-- The engine waits for a parser, or for the keeper to take a batch. -/
theorem engine_waits (h : s.stepEngine c = none) :
    s.engineAt.isOver = true ∨ s.engine.finished < c.parserThreads ∧ s.parsed = [] ∨
      s.isClosed = false ∧ s.batches ≠ [] := by
  have hsend : ∀ {batch : List Op} {point point' : EnginePoint},
      s.send batch point point' = none → s.isClosed = false ∧ s.batches ≠ [] := by
    intro batch point point' hnone
    unfold Stages.send at hnone
    split at hnone
    · cases hnone
    · rename_i hopen
      split at hnone
      · cases hnone
      · refine ⟨Bool.not_eq_true _ ▸ hopen, fun hnil => ?_⟩
        rename_i hfull
        rw [hnil] at hfull
        exact hfull (by decide)
  unfold stepEngine at h
  cases hat : s.engineAt with
  | taking =>
      rw [hat] at h
      simp only at h
      split at h
      · split at h
        · exact .inr (.inl ⟨‹_›, ‹_›⟩)
        · cases h
        · cases h
      · split at h <;> cases h
  | sending batch =>
      rw [hat] at h
      exact .inr (.inr (hsend h))
  | sendingLast batch =>
      rw [hat] at h
      exact .inr (.inr (hsend h))
  | ended => exact .inl rfl
  | fallen => exact .inl rfl
  | cutting =>
      rw [hat] at h
      simp only at h
      split at h <;> cases h
  | lastCheck =>
      rw [hat] at h
      simp only at h
      split at h <;> cases h
  | _ =>
      rw [hat] at h
      cases h

/-- The keeper waits for a batch. -/
theorem keeper_waits [GraphStore σ] (h : s.stepKeeper = none) :
    (∃ refusal, s.keeper = .ended refusal) ∨
      s.isClosed = false ∧ s.batches = [] ∧ s.engineAt.isOver = false := by
  unfold stepKeeper at h
  cases hat : s.keeper with
  | taking =>
      rw [hat] at h
      simp only at h
      split at h
      · cases h
      · rename_i hbatches
        split at h
        · cases h
        · rename_i hrunning
          refine .inr ⟨?_, hbatches, Bool.not_eq_true _ ▸ hrunning⟩
          rw [isClosed, hat]
  | offering batch =>
      rw [hat] at h
      simp only at h
      split at h <;> cases h
  | raising e =>
      rw [hat] at h
      cases h
  | closing e =>
      rw [hat] at h
      cases h
  | ended refusal => exact .inl ⟨refusal, rfl⟩

end Waits

/-! ## The end -/

/-- All stages are at their ends, or the engine has fallen and the others are. -/
structure AllEnded (s : Stages σ) : Prop where
  reader : ∃ lines, s.reader = .ended lines
  parsers : ∀ p ∈ s.parsers, p.isEnded = true
  engine : s.engineAt.isOver = true
  keeper : ∃ refusal, s.keeper = .ended refusal

/-- The stages come to something exactly when all are at their ends. -/
theorem isSome_result_iff {s : Stages σ} : s.result.isSome = true ↔ s.AllEnded := by
  constructor
  · intro h
    unfold Stages.result at h
    split at h
    next lines refusal hreader hengine hkeeper =>
      split at h
      next hall =>
        exact ⟨⟨lines, hreader⟩, List.all_eq_true.mp hall, by rw [hengine]; rfl,
          ⟨refusal, hkeeper⟩⟩
      next => cases h
    next lines refusal hreader hengine hkeeper =>
      split at h
      next hall =>
        exact ⟨⟨lines, hreader⟩, List.all_eq_true.mp hall, by rw [hengine]; rfl,
          ⟨refusal, hkeeper⟩⟩
      next => cases h
    next => cases h
  · rintro ⟨⟨lines, hreader⟩, hparsers, hengine, refusal, hkeeper⟩
    have hall : s.parsers.all ParserPoint.isEnded = true := List.all_eq_true.mpr hparsers
    unfold Stages.result
    rcases EnginePoint.isOver_iff.mp hengine with hat | hat <;>
      simp only [hat, hreader, hkeeper, hall, if_true, Option.isSome_some]

/-- Stages that are all at their ends take no step. -/
theorem AllEnded.step_eq_none [GraphStore σ] {s : Stages σ} (h : s.AllEnded) (c : Config)
    (failure : Option String) (stage : Stage) : s.step c failure stage = none := by
  obtain ⟨⟨lines, hreader⟩, hparsers, hengine, refusal, hkeeper⟩ := h
  cases stage with
  | reader => simp only [step, stepReader, hreader]
  | parser i =>
      simp only [step, stepParser]
      cases hi : s.parsers[i]? with
      | none => rfl
      | some p =>
          have hended := hparsers p (List.mem_of_getElem? hi)
          cases p <;> first | rfl | cases hended
  | engine =>
      rcases EnginePoint.isOver_iff.mp hengine with hat | hat <;> simp only [step, stepEngine, hat]
  | keeper => simp only [step, stepKeeper, hkeeper]

/-! ## The stages do not wait in a circle -/

/-- When no stage takes a step, the engine is at its end or has fallen. -/
theorem Flow.engine_isOver [GraphStore σ] {c : Config} {source : Source} {handed : Nat}
    {s : Stages σ} (h : Flow c source handed s) (hthreads : 0 < c.parserThreads)
    (hcapacity : 0 < c.ringCapacity) (hstuck : ∀ stage, s.step c source.failure stage = none) :
    s.engineAt.isOver = true := by
  have hmarks := h.marks
  have hparsers := fun {p} (hp : p ∈ s.parsers) => parser_waits (fun i => hstuck (.parser i)) hp
  rcases engine_waits (hstuck .engine) with
    hended | ⟨hfinished, hparsed⟩ | ⟨hopen, hbatches⟩
  · exact hended
  · -- The engine waits for the parsers, so they wait for the reader, which has nothing to wait
    -- for.
    exfalso
    have hroom : ¬ c.ringCapacity ≤ s.parsed.length := by
      rw [hparsed]
      exact Nat.not_le_of_lt hcapacity
    by_cases hjobs : s.jobs = []
    · rcases reader_waits (hstuck .reader) hthreads hcapacity (by omega) with
        ⟨result, hat⟩ | ⟨hsome, _⟩
      · have hheld : s.parsers.filterMap ParserPoint.held = [] := by
          refine ParserPoint.filterMap_held_eq_nil fun p hp => ?_
          rcases hparsers hp with hpended | ⟨hwaiting, _⟩ | ⟨_, hfull⟩
          · exact .inl hpended
          · exact .inr hwaiting
          · exact absurd hfull hroom
        rw [hat, onTheWay, hjobs, hheld, hparsed] at hmarks
        simp only [ReaderPoint.left, List.map_nil, List.append_nil, List.countP_nil] at hmarks
        omega
      · exact hsome hjobs
    · have hall : s.parsers.countP ParserPoint.isEnded = s.parsers.length := by
        refine List.countP_eq_length.mpr fun p hp => ?_
        rcases hparsers hp with hpended | ⟨_, hnil⟩ | ⟨_, hfull⟩
        · exact hpended
        · exact absurd hnil hjobs
        · exact absurd hfull hroom
      have hcount := h.ended
      have hsize := h.size
      rw [hparsed, List.countP_nil] at hcount
      omega
  · -- The engine cannot wait for the keeper, which would take a batch.
    rcases keeper_waits (hstuck .keeper) with ⟨refusal, hat⟩ | ⟨_, hnil, _⟩
    · rw [isClosed, hat] at hopen
      cases hopen
    · exact absurd hnil hbatches

/-- When the engine is over, the keeper does not wait for it. -/
theorem keeper_ended_of_stuck [GraphStore σ] {c : Config} {failure : Option String} {s : Stages σ}
    (hstuck : ∀ stage, s.step c failure stage = none) (hover : s.engineAt.isOver = true) :
    ∃ refusal, s.keeper = .ended refusal := by
  rcases keeper_waits (hstuck .keeper) with hended | ⟨_, _, hrunning⟩
  · exact hended
  · rw [hover] at hrunning
    cases hrunning

/-- When nobody can take a step and the engine has not fallen, all stages are at their ends. -/
theorem Agrees.allEnded [GraphStore σ] {c : Config} {t : Tracker} {source : Source} {store : σ}
    {s : Stages σ} (h : Agrees c t source store s) (hc : c.validate = .ok ())
    (hfits : c.batchFits = true) (hstuck : ∀ stage, s.step c source.failure stage = none) :
    s.AllEnded := by
  obtain ⟨_, hthreads, hcapacity⟩ := pos_of_validate hc
  obtain ⟨handed, hflow⟩ := h.flow
  have hover := hflow.engine_isOver hthreads hcapacity hstuck
  have hended : s.engineAt = .ended := by
    refine (EnginePoint.isOver_iff.mp hover).resolve_right fun hfallen => ?_
    rw [h.fallen.mp hfallen] at hfits
    cases hfits
  obtain ⟨hleft, _, hall, _, _, _⟩ := hflow.drained hthreads (by rw [hended]; rfl)
  rcases reader_waits (hstuck .reader) hthreads hcapacity (by omega) with hread | ⟨_, hpos⟩
  · exact ⟨hread, hall, hover, keeper_ended_of_stuck hstuck hover⟩
  · omega

/-- When nobody can take a step and the engine has not fallen, the ingest has come to something. -/
theorem Agrees.exists_result [GraphStore σ] {c : Config} {t : Tracker} {source : Source}
    {store : σ} {s : Stages σ} (h : Agrees c t source store s) (hc : c.validate = .ok ())
    (hfits : c.batchFits = true) (hstuck : ∀ stage, s.step c source.failure stage = none) :
    ∃ result, s.result = some result :=
  Option.isSome_iff_exists.mp (isSome_result_iff.mpr (h.allEnded hc hfits hstuck))

end Stages

end Lineage.Session

import Lineage.Session.Stages

/-!
# What a step of a stage can be

`Move` lists the steps that the stages can take, each with the state it starts from and the change
it makes.  A step of `Stages.step` is one of them (`step_move`), and a stage that stands where a
move begins can take it.  What is said of all steps is shown move by move.

The engine's `proceed` comes behind several moves, so its two outcomes are given apart
(`proceed_eq`).
-/

namespace Lineage.Session

theorem EnginePoint.isOver_iff {point : EnginePoint} :
    point.isOver = true ↔ point = .ended ∨ point = .fallen := by
  cases point <;> simp [isOver]

namespace Stages

open Lineage.Audit (Event LineError Source isBlankLine)
open Lineage.Graph (GraphStore Op StoreError)
open Lineage.Json (Bytes)

variable {σ : Type}

/-! ## The start -/

/-- At the start the engine takes what is parsed, or it has fallen. -/
theorem start_engineAt (c : Config) (t : Tracker) (s : σ) (source : Source) :
    (start c t s source).engineAt = .taking ∨ (start c t s source).engineAt = .fallen := by
  rw [start]
  cases c.batchFits
  · exact .inr rfl
  · exact .inl rfl

theorem start_fallen_iff (c : Config) (t : Tracker) (s : σ) (source : Source) :
    (start c t s source).engineAt = .fallen ↔ c.batchFits = false := by
  rw [start]
  cases c.batchFits
  · exact iff_of_true rfl rfl
  · exact iff_of_false nofun nofun

theorem launch_eq_ok_iff {c : Config} {t : Tracker} {s : σ} {source : Source} {s' : Stages σ} :
    launch c t s source = .ok s' ↔ c.ringsFit = true ∧ s' = start c t s source := by
  unfold launch
  cases c.ringsFit
  · exact iff_of_false nofun nofun
  · exact ⟨fun h => ⟨rfl, (Except.ok.inj h).symm⟩, fun h => congrArg _ h.2.symm⟩

/-! ## The reader and the parsers -/

/-- The steps of the reader. -/
inductive ReaderMove (c : Config) (failure : Option String) (s : Stages σ) :
    Stages σ → Prop where
  | stopEarly {lines line seq} : s.reader = .reading lines line seq → s.flag = true →
      ReaderMove c failure s { s with reader := .closing c.parserThreads (.ok line) }
  | reachEnd {line seq} : s.reader = .reading [] line seq → s.flag = false → failure = none →
      ReaderMove c failure s { s with reader := .closing c.parserThreads (.ok line) }
  | fail {line seq reason} : s.reader = .reading [] line seq → s.flag = false →
      failure = some reason →
      ReaderMove c failure s { s with reader := .failing ⟨line + 1, .source reason⟩ }
  | passBlank {text lines line seq} : s.reader = .reading (text :: lines) line seq →
      s.flag = false → isBlankLine text = true →
      ReaderMove c failure s { s with reader := .reading lines (line + 1) seq }
  | read {text lines line seq} : s.reader = .reading (text :: lines) line seq →
      s.flag = false → isBlankLine text = false →
      ReaderMove c failure s { s with reader := .handing text lines (line + 1) seq }
  | hand {text lines line seq} : s.reader = .handing text lines line seq →
      s.jobs.length < c.ringCapacity →
      ReaderMove c failure s { s with
        jobs := s.jobs ++ [.line seq line text], reader := .reading lines line (seq + 1) }
  | raise {e} : s.reader = .failing e →
      ReaderMove c failure s
        { s with flag := true, reader := .closing c.parserThreads (.error e) }
  | closeAll {left result} : s.reader = .closing (left + 1) result →
      c.parserThreads ≤ c.ringCapacity → s.jobs.length + (left + 1) ≤ c.ringCapacity →
      ReaderMove c failure s { s with
        jobs := s.jobs ++ List.replicate (left + 1) .finish, reader := .closing 0 result }
  | closeOne {left result} : s.reader = .closing (left + 1) result →
      c.ringCapacity < c.parserThreads → s.jobs.length < c.ringCapacity →
      ReaderMove c failure s { s with
        jobs := s.jobs ++ [.finish], reader := .closing left result }
  | finish {result} : s.reader = .closing 0 result →
      ReaderMove c failure s { s with reader := .ended result }

/-- The steps of a parser. -/
inductive ParserMove (c : Config) (s : Stages σ) : Stages σ → Prop where
  | take {before after job jobs} : s.parsers = before ++ .waiting :: after →
    s.jobs = job :: jobs →
      ParserMove c s { s with jobs := jobs, parsers := before ++ .holding job.parse :: after }
  | pass {before after p} : s.parsers = before ++ .holding p :: after →
      s.parsed.length < c.ringCapacity →
      ParserMove c s { s with parsed := s.parsed ++ [p], parsers := before ++ p.after :: after }

/-! ## The engine -/

/-- The steps of the engine. -/
inductive EngineMove (c : Config) (s : Stages σ) : Stages σ → Prop where
  | takeLine {seq result parsed} : s.engineAt = .taking → s.engine.finished < c.parserThreads →
      s.parsed = .line seq result :: parsed →
      EngineMove c s (proceed { s with
        parsed := parsed
        engine := { s.engine with early := (seq, result) :: s.engine.early } })
  | takeMark {parsed} : s.engineAt = .taking → s.engine.finished < c.parserThreads →
      s.parsed = .finished :: parsed →
      EngineMove c s { s with
        parsed := parsed, engine := { s.engine with finished := s.engine.finished + 1 } }
  | finish : s.engineAt = .taking → c.parserThreads ≤ s.engine.finished →
    s.engine.ops = [] →
      EngineMove c s { s with engineAt := .ended }
  | leave : s.engineAt = .taking → c.parserThreads ≤ s.engine.finished →
    s.engine.ops ≠ [] →
      EngineMove c s { s with engineAt := .lastCheck }
  | drop {result} : s.engineAt = .checking result → s.flag = true → EngineMove c s s.proceed
  | use {events} : s.engineAt = .checking (.ok events) → s.flag = false →
      EngineMove c s { s with
        engine := { s.engine with
          tracker := (s.engine.tracker.run events).1
          ops := s.engine.ops ++ (s.engine.tracker.run events).2
          events := s.engine.events + events.length }
        engineAt := .cutting }
  | skip {e} : s.engineAt = .checking (.error e) → s.flag = false → c.skipInvalid = true →
      EngineMove c s { s with
        engine := { s.engine with skipped := s.engine.skipped ++ [e] }
        engineAt := .cutting }
  | condemn {e} : s.engineAt = .checking (.error e) → s.flag = false → c.skipInvalid = false →
      EngineMove c s { s with engine := { s.engine with fatal := some e }, engineAt := .raising }
  | raise : s.engineAt = .raising → EngineMove c s (proceed { s with flag := true })
  | cut : s.engineAt = .cutting → c.batchSize ≤ s.engine.ops.length →
      EngineMove c s { s with
        engine := { s.engine with ops := s.engine.ops.drop c.batchSize }
        engineAt := .sending (s.engine.ops.take c.batchSize) }
  | goOn : s.engineAt = .cutting → s.engine.ops.length < c.batchSize → EngineMove c s s.proceed
  | send {batch} : s.engineAt = .sending batch → s.isClosed = false →
      s.batches.length < batchQueueLimit →
      EngineMove c s { s with batches := s.batches ++ [batch], engineAt := .cutting }
  | cutOff {batch} : s.engineAt = .sending batch → s.isClosed = true →
      EngineMove c s { s with engineAt := .cutOff }
  | raiseCutOff : s.engineAt = .cutOff → EngineMove c s (proceed { s with flag := true })
  | dropLast : s.engineAt = .lastCheck → s.flag = true →
      EngineMove c s { s with engineAt := .ended }
  | takeLast : s.engineAt = .lastCheck → s.flag = false →
      EngineMove c s { s with
        engine := { s.engine with ops := [] }, engineAt := .sendingLast s.engine.ops }
  | sendLast {batch} : s.engineAt = .sendingLast batch → s.isClosed = false →
      s.batches.length < batchQueueLimit →
      EngineMove c s { s with batches := s.batches ++ [batch], engineAt := .ended }
  | cutOffLast {batch} : s.engineAt = .sendingLast batch → s.isClosed = true →
      EngineMove c s { s with engineAt := .lastCutOff }
  | raiseLast : s.engineAt = .lastCutOff →
      EngineMove c s { s with flag := true, engineAt := .ended }

/-! ## The keeper -/

/-- The steps of the keeper. -/
inductive KeeperMove [GraphStore σ] (s : Stages σ) : Stages σ → Prop where
  | take {batch batches} : s.keeper = .taking → s.batches = batch :: batches →
      KeeperMove s { s with batches := batches, keeper := .offering batch }
  | finish : s.keeper = .taking → s.batches = [] → s.engineAt.isOver = true →
      KeeperMove s { s with keeper := .ended none }
  | accept {batch store} : s.keeper = .offering batch →
      GraphStore.execute s.store batch = (.ok (), store) →
      KeeperMove s { s with
        store := store
        offered := s.offered ++ [batch]
        accepted := s.accepted ++ [batch]
        keeper := .taking }
  | refuse {batch e store} : s.keeper = .offering batch →
      GraphStore.execute s.store batch = (.error e, store) →
      KeeperMove s { s with store := store, offered := s.offered ++ [batch], keeper := .raising e }
  | raise {e} : s.keeper = .raising e →
      KeeperMove s { s with flag := true, keeper := .closing e }
  | close {e} : s.keeper = .closing e →
      KeeperMove s { s with batches := [], keeper := .ended (some e) }

/-! ## All stages -/

/-- The steps of all stages. -/
inductive Move [GraphStore σ] (c : Config) (failure : Option String) (s s' : Stages σ) :
    Prop where
  | reader : ReaderMove c failure s s' → Move c failure s s'
  | parser : ParserMove c s s' → Move c failure s s'
  | engine : EngineMove c s s' → Move c failure s s'
  | keeper : KeeperMove s s' → Move c failure s s'

section Inversion

variable {c : Config} {failure : Option String} {s s' : Stages σ}

theorem stepReader_move (h : s.stepReader c failure = some s') : ReaderMove c failure s s' := by
  unfold stepReader at h
  split at h
  · rename_i lines line seq hat
    split at h
    · rename_i hflag
      cases h
      exact .stopEarly hat hflag
    · rename_i hflag
      rw [Bool.not_eq_true] at hflag
      split at h
      · split at h
        · cases h
          exact .reachEnd hat hflag rfl
        · cases h
          exact .fail hat hflag rfl
      · split at h
        · rename_i hblank
          cases h
          exact .passBlank hat hflag hblank
        · rename_i hblank
          cases h
          exact .read hat hflag (Bool.not_eq_true _ ▸ hblank)
  · rename_i hat
    split at h
    · cases h
      exact .hand hat ‹_›
    · cases h
  · rename_i hat
    cases h
    exact .raise hat
  · rename_i hat
    cases h
    exact .finish hat
  · rename_i hat
    split at h
    · split at h
      · cases h
        exact .closeAll hat ‹_› ‹_›
      · cases h
    · rename_i hmany
      split at h
      · cases h
        exact .closeOne hat (Nat.lt_of_not_le hmany) ‹_›
      · cases h
  · cases h

/-- The place of an element in a list. -/
theorem eq_append_of_getElem? {α : Type} {l : List α} {i : Nat} {a : α} (h : l[i]? = some a)
    (b : α) :
    ∃ before after, l = before ++ a :: after ∧ l.set i b = before ++ b :: after := by
  obtain ⟨hi, rfl⟩ := List.getElem?_eq_some_iff.mp h
  refine ⟨l.take i, l.drop (i + 1), ?_,
    List.set_eq_take_append_cons_drop .. |>.trans (if_pos hi)⟩
  rw [← List.drop_eq_getElem_cons hi, List.take_append_drop]

theorem stepParser_move {i : Nat} (h : s.stepParser c i = some s') : ParserMove c s s' := by
  unfold stepParser at h
  split at h
  · rename_i hat
    split at h
    · cases h
    · rename_i job jobs hjobs
      obtain ⟨before, after, heq, hset⟩ := eq_append_of_getElem? hat (.holding job.parse)
      cases h
      rw [hset]
      exact .take heq hjobs
  · rename_i p hat
    split at h
    · obtain ⟨before, after, heq, hset⟩ := eq_append_of_getElem? hat p.after
      cases h
      rw [hset]
      exact .pass heq ‹_›
    · cases h
  · cases h
  · cases h

theorem stepEngine_move (h : s.stepEngine c = some s') : EngineMove c s s' := by
  unfold stepEngine at h
  split at h
  · rename_i hat
    split at h
    · rename_i hfinished
      split at h
      · cases h
      · cases h
        exact .takeLine hat hfinished ‹_›
      · cases h
        exact .takeMark hat hfinished ‹_›
    · rename_i hfinished
      have hall := Nat.le_of_not_lt hfinished
      split at h
      · rename_i hops
        cases h
        exact .finish hat hall (List.isEmpty_iff.mp hops)
      · rename_i hops
        cases h
        exact .leave hat hall fun hnil => hops (List.isEmpty_iff.mpr hnil)
  · rename_i result hat
    split at h
    · cases h
      exact .drop hat ‹_›
    · rename_i hflag
      rw [Bool.not_eq_true] at hflag
      cases h
      cases result with
      | ok events => exact .use hat hflag
      | error e =>
          simp only [Stages.use]
          split
          · exact .skip hat hflag ‹_›
          · rename_i hskip
            exact .condemn hat hflag (Bool.not_eq_true _ ▸ hskip)
  · rename_i hat
    cases h
    exact .raise hat
  · rename_i hat
    split at h
    · cases h
      exact .cut hat ‹_›
    · rename_i hshort
      cases h
      exact .goOn hat (Nat.lt_of_not_le hshort)
  · rename_i batch hat
    unfold Stages.send at h
    split at h
    · cases h
      exact .cutOff hat ‹_›
    · rename_i hopen
      split at h
      · cases h
        exact .send hat (Bool.not_eq_true _ ▸ hopen) ‹_›
      · cases h
  · rename_i hat
    cases h
    exact .raiseCutOff hat
  · rename_i hat
    split at h
    · cases h
      exact .dropLast hat ‹_›
    · rename_i hflag
      cases h
      exact .takeLast hat (Bool.not_eq_true _ ▸ hflag)
  · rename_i batch hat
    unfold Stages.send at h
    split at h
    · cases h
      exact .cutOffLast hat ‹_›
    · rename_i hopen
      split at h
      · cases h
        exact .sendLast hat (Bool.not_eq_true _ ▸ hopen) ‹_›
      · cases h
  · rename_i hat
    cases h
    exact .raiseLast hat
  · cases h
  · cases h

theorem stepKeeper_move [GraphStore σ] (h : s.stepKeeper = some s') : KeeperMove s s' := by
  unfold stepKeeper at h
  split at h
  · rename_i hat
    split at h
    · cases h
      exact .take hat ‹_›
    · split at h
      · cases h
        exact .finish hat ‹_› ‹_›
      · cases h
  · rename_i batch hat
    split at h
    · cases h
      exact .accept hat ‹_›
    · cases h
      exact .refuse hat ‹_›
  · rename_i hat
    cases h
    exact .raise hat
  · rename_i hat
    cases h
    exact .close hat
  · cases h

/-- A step is one of the moves. -/
theorem step_move [GraphStore σ] {stage : Stage} (h : s.step c failure stage = some s') :
    Move c failure s s' := by
  cases stage with
  | reader => exact .reader (stepReader_move h)
  | parser i => exact .parser (stepParser_move h)
  | engine => exact .engine (stepEngine_move h)
  | keeper => exact .keeper (stepKeeper_move h)

end Inversion

/-! ## Going on with the next line -/

/-- The next line is there and is taken, or the engine takes from the parsers again. -/
theorem proceed_eq (s : Stages σ) :
    (s.engine.early.lookup s.engine.nextSeq = none ∧
      s.proceed = { s with engineAt := .taking }) ∨
      ∃ result, s.engine.early.lookup s.engine.nextSeq = some result ∧
        s.proceed = { s with
          engine := { s.engine with
            early := s.engine.early.filter fun p => p.1 != s.engine.nextSeq
            nextSeq := s.engine.nextSeq + 1 }
          engineAt := .checking result } := by
  unfold proceed
  cases h : s.engine.early.lookup s.engine.nextSeq with
  | none => exact .inl ⟨rfl, rfl⟩
  | some result => exact .inr ⟨result, rfl, rfl⟩

/-- The engine leaves the keeper and the store alone. -/
theorem EngineMove.keeper {c : Config} {s s' : Stages σ} (h : EngineMove c s s') :
    s'.store = s.store ∧ s'.offered = s.offered ∧ s'.accepted = s.accepted ∧
      s'.keeper = s.keeper := by
  have hproceed : ∀ s : Stages σ, s.proceed.store = s.store ∧ s.proceed.offered = s.offered ∧
      s.proceed.accepted = s.accepted ∧ s.proceed.keeper = s.keeper := by
    intro s
    rcases s.proceed_eq with ⟨_, heq⟩ | ⟨_, _, heq⟩ <;> rw [heq] <;>
      exact ⟨rfl, rfl, rfl, rfl⟩
  cases h with
  | takeLine => exact hproceed _
  | drop => exact hproceed s
  | raise => exact hproceed _
  | goOn => exact hproceed s
  | raiseCutOff => exact hproceed _
  | _ => exact ⟨rfl, rfl, rfl, rfl⟩

/-- The engine does nothing at its end or when it has fallen. -/
theorem EngineMove.isOver_eq_false {c : Config} {s s' : Stages σ} (h : EngineMove c s s') :
    s.engineAt.isOver = false := by
  cases h <;> simp_all only [EnginePoint.isOver]

/-- Whoever takes a step, the engine does not fall. -/
theorem Move.fallen_iff [GraphStore σ] {c : Config} {failure : Option String} {s s' : Stages σ}
    (h : Move c failure s s') : s'.engineAt = .fallen ↔ s.engineAt = .fallen := by
  have hproceed : ∀ s : Stages σ, s.proceed.engineAt ≠ .fallen := by
    intro s
    rcases s.proceed_eq with ⟨_, heq⟩ | ⟨_, _, heq⟩ <;> rw [heq] <;> exact nofun
  cases h with
  | reader hmove => cases hmove <;> exact Iff.rfl
  | parser hmove => cases hmove <;> exact Iff.rfl
  | keeper hmove => cases hmove <;> exact Iff.rfl
  | engine hmove =>
      have hover := hmove.isOver_eq_false
      refine iff_of_false ?_ fun hfallen => by rw [hfallen] at hover; cases hover
      cases hmove with
      | takeLine | drop | raise | goOn | raiseCutOff => exact hproceed _
      | takeMark hat => exact fun hfallen => by cases hat.symm.trans hfallen
      | _ => exact nofun

/-! ## What the stages come to -/

/-- What the stages come to at their ends, and why.  An engine that has fallen goes before a refusal
of the store, that before a journal that could not be read, and that before a refused line. -/
inductive ComesTo (s : Stages σ) : Except IngestError Report → Prop where
  | fallen : s.engineAt = .fallen → ComesTo s (.error (.panicked "engine"))
  | refused {e} : s.engineAt = .ended → s.keeper = .ended (some e) →
      ComesTo s (.error (.store e))
  | unread {e} : s.engineAt = .ended → s.keeper = .ended none → s.reader = .ended (.error e) →
      ComesTo s (.error (.journal e))
  | condemned {n e} : s.engineAt = .ended → s.keeper = .ended none →
      s.reader = .ended (.ok n) → s.engine.fatal = some e → ComesTo s (.error (.journal e))
  | reported {n} : s.engineAt = .ended → s.keeper = .ended none →
      s.reader = .ended (.ok n) → s.engine.fatal = none →
      ComesTo s (.ok { lines := n
                       events := s.engine.events
                       invalid := s.engine.skipped.length
                       ops := s.accepted.flatten.length
                       batches := s.accepted.length
                       tracker := s.engine.tracker.stats })

theorem comesTo_of_result {s : Stages σ} {result : Except IngestError Report}
    (h : s.result = some result) : s.ComesTo result := by
  unfold Stages.result at h
  split at h
  · rename_i lines refusal hreader hengine hkeeper
    split at h
    · cases h
      cases refusal with
      | some e => exact .refused hengine hkeeper
      | none =>
          cases lines with
          | error e => exact .unread hengine hkeeper hreader
          | ok n =>
              cases hfatal : s.engine.fatal with
              | some e => exact .condemned hengine hkeeper hreader hfatal
              | none => exact .reported hengine hkeeper hreader hfatal
    · cases h
  · rename_i hengine _
    split at h
    · cases h
      exact .fallen hengine
    · cases h
  · cases h

/-- Stages with an engine that has fallen come to nothing else. -/
theorem ComesTo.eq_panicked {s : Stages σ} {result : Except IngestError Report}
    (h : s.ComesTo result) (hfallen : s.engineAt = .fallen) :
    result = .error (.panicked "engine") := by
  cases h with
  | fallen => rfl
  | refused hended | unread hended | condemned hended | reported hended =>
      cases hfallen.symm.trans hended

end Stages

end Lineage.Session

import Lineage.Proofs.Session.Flow

/-!
# What has passed between the stages

`Flow` says where the lines and marks are that the engine has not come to.  `Passage` adds what the
engine has taken.  Everything that the reader has handed on is on its way or was taken, and the
lines among it have the places from 0 on, each once.

The steps here are those of stages that never wait for room, since `Flow` does not need the limits
of the queues.
-/

namespace Lineage.Session

open Lineage.Audit (Source)
open Lineage.Graph (GraphStore)
open Lineage.Json (Bytes)

/-- The place of a line. -/
def Job.seq? : Job → Option Nat
  | .line seq .. => some seq
  | .finish => none

theorem Job.isMark_iff {job : Job} : job.isMark = true ↔ job = .finish := by
  cases job <;> simp [Job.isMark]

namespace Stages

variable {σ : Type}

/-- Going on with the next line leaves the queues and the count of marks alone. -/
theorem proceed_frame (s : Stages σ) :
    s.proceed.parsed = s.parsed ∧ s.proceed.jobs = s.jobs ∧ s.proceed.parsers = s.parsers ∧
      s.proceed.reader = s.reader ∧ s.proceed.engine.finished = s.engine.finished := by
  rcases s.proceed_eq with
    ⟨_, heq⟩ | ⟨_, _, heq⟩ <;> rw [heq] <;> exact ⟨rfl, rfl, rfl, rfl, rfl⟩

/-- The engine takes from the front of what was parsed and leaves the other queues alone. -/
theorem EngineMove.exists_taken {c : Config} {s s' : Stages σ} (h : EngineMove c s s') :
    ∃ taken, s.parsed = taken ++ s'.parsed ∧ s'.jobs = s.jobs ∧ s'.parsers = s.parsers ∧
      s'.reader = s.reader := by
  have hproceed : ∀ (u : Stages σ) (taken : List Parsed), s.parsed = taken ++ u.parsed →
      u.jobs = s.jobs →
      u.parsers = s.parsers → u.reader = s.reader →
        ∃ taken, s.parsed = taken ++ u.proceed.parsed ∧ u.proceed.jobs = s.jobs ∧
          u.proceed.parsers = s.parsers ∧ u.proceed.reader = s.reader := by
    intro u taken hparsed hjobs hparsers hreader
    obtain ⟨hparsed', hjobs', hparsers', hreader', -⟩ := u.proceed_frame
    exact ⟨taken, by rw [hparsed', hparsed], hjobs'.trans hjobs, hparsers'.trans hparsers,
      hreader'.trans hreader⟩
  cases h with
  | takeLine _ _ hparsed => exact hproceed _ [_] hparsed rfl rfl rfl
  | takeMark _ _ hparsed => exact ⟨[.finished], hparsed, rfl, rfl, rfl⟩
  | drop | goOn => exact hproceed s [] rfl rfl rfl rfl
  | raise | raiseCutOff => exact hproceed _ [] rfl rfl rfl rfl
  | _ => exact ⟨[], rfl, rfl, rfl, rfl⟩

/-- Once all marks are counted, the engine waits for no line. -/
theorem EngineMove.lacksNext {c : Config} {s s' : Stages σ} (h : EngineMove c s s')
    (hloop : s.engine.finished = c.parserThreads → s.engineAt.lacksNext = true)
    (hfinished : s'.engine.finished = c.parserThreads) : s'.engineAt.lacksNext = true := by
  -- Where the engine works on a line, not all marks are counted.
  have hinside : s.engine.finished = c.parserThreads → s.engineAt.lacksNext = false →
      s'.engineAt.lacksNext = true := by
    intro hcounted hlacks
    rw [hloop hcounted] at hlacks
    cases hlacks
  cases h with
  | takeLine _ hlt =>
      rw [(proceed_frame _).2.2.2.2] at hfinished
      exact absurd hfinished (Nat.ne_of_lt hlt)
  | takeMark hat => rw [hat]; rfl
  | drop hat | goOn hat | raise hat | raiseCutOff hat =>
      rw [(proceed_frame _).2.2.2.2] at hfinished
      exact hinside hfinished (by rw [hat]; rfl)
  | use hat | skip hat | condemn hat | cut hat | send hat | cutOff hat =>
      exact hinside hfinished (by rw [hat]; rfl)
  | _ => rfl

/-- What the reader has handed on is on its way or was taken by the engine, and its lines are
numbered. -/
structure Passage (c : Config) (source : Source) (handed : Nat)
  (lined : List Job) (got : List Parsed)
    (s : Stages σ) : Prop where
  flow : Flow c source handed s
  seqs : lined.filterMap Job.seq? = List.range handed
  conserved : (lined.map Job.parse).Perm (s.onTheWay ++ got)
  loop : s.engine.finished = c.parserThreads → s.engineAt.lacksNext = true

namespace Passage

variable {c : Config} {source : Source} {handed : Nat} {lined : List Job}
  {got : List Parsed} {s s' : Stages σ}

theorem start (hc : 0 < c.parserThreads) (t : Tracker) (store : σ) (source : Source) :
    Passage c source 0 [] [] (Stages.start c t store source) where
  flow := .start c t store source
  seqs := rfl
  conserved := by simp [Flow.onTheWay_start]
  loop hfinished := absurd hfinished.symm (Nat.ne_of_gt hc)

/-! ## The reader -/

/-- The reader hands on its next line. -/
theorem hand (h : Passage c source handed lined got s) {text : Bytes} {lines : List Bytes}
    {line seq : Nat} (hat : s.reader = .handing text lines line seq) :
    Passage c source (handed + 1) (lined ++ [.line seq line text]) got
      { s with
        jobs := s.jobs ++ [.line seq line text], reader := .reading lines line (seq + 1) } where
  flow := h.flow.hand hat
  seqs := by
    have hfits := h.flow.reader
    rw [hat] at hfits
    obtain ⟨rfl, -⟩ := hfits
    rw [List.filterMap_append, h.seqs, List.range_succ]
    rfl
  conserved := by
    rw [List.map_append]
    have hway :=
      (s.onTheWay_append [.line seq line text] (.reading lines line (seq + 1))).append_right got
    refine (h.conserved.append_right _).trans (List.perm_append_comm.trans ?_)
    rw [List.append_assoc] at hway
    exact hway.symm
  loop := h.loop

/-- The reader hands on one mark. -/
theorem handMark (h : Passage c source handed lined got s) {left : Nat}
    {result : Except Audit.LineError Nat} (hat : s.reader = .closing (left + 1) result) :
    Passage c source handed (lined ++ [.finish]) got
      { s with jobs := s.jobs ++ [.finish], reader := .closing left result } where
  flow := h.flow.handMarks (n := 1) hat
  seqs := by
    rw [List.filterMap_append, h.seqs]
    exact List.append_nil _
  conserved := by
    rw [List.map_append]
    have hway := (s.onTheWay_append [.finish] (.closing left result)).append_right got
    refine (h.conserved.append_right _).trans (List.perm_append_comm.trans ?_)
    rw [List.append_assoc] at hway
    exact hway.symm
  loop := h.loop

/-- The reader goes on without handing on anything. -/
theorem reader_move (h : Passage c source handed lined got s)
    (hmove : ReaderMove c source.failure s s') (hjobs : s'.jobs = s.jobs)
    (hnot : ∀ text lines line seq, s.reader ≠ .handing text lines line seq) :
    Passage c source handed lined got s' := by
  have hsame : s'.parsers = s.parsers ∧ s'.parsed = s.parsed ∧ s'.engine = s.engine ∧
      s'.engineAt = s.engineAt := by
    cases hmove <;> exact ⟨rfl, rfl, rfl, rfl⟩
  obtain ⟨hparsers, hparsed, hengine, hat⟩ := hsame
  refine ⟨h.flow.reader_move_of_not_handing hmove hnot, h.seqs, ?_, ?_⟩
  · rw [onTheWay, hjobs, hparsers, hparsed]
    exact h.conserved
  · rw [hengine, hat]
    exact h.loop

/-! ## The parsers -/

/-- A parser takes a job. -/
theorem take (h : Passage c source handed lined got s) {i : Nat} {job : Job} {jobs : List Job}
    (hi : s.parsers[i]? = some .waiting) (hjobs : s.jobs = job :: jobs) :
    Passage c source handed lined got
      { s with jobs := jobs, parsers := s.parsers.set i (.holding job.parse) } := by
  obtain ⟨before, after, hparsers, hset⟩ := eq_append_of_getElem? hi (.holding job.parse)
  rw [hset]
  exact ⟨h.flow.take hparsers hjobs, h.seqs,
    h.conserved.trans ((onTheWay_take s hparsers hjobs).symm.append_right got), h.loop⟩

/-- A parser hands on what it holds. -/
theorem pass (h : Passage c source handed lined got s) {i : Nat} {p : Parsed}
    (hi : s.parsers[i]? = some (.holding p)) :
    Passage c source handed lined got
      { s with parsed := s.parsed ++ [p], parsers := s.parsers.set i p.after } := by
  obtain ⟨before, after, hparsers, hset⟩ := eq_append_of_getElem? hi p.after
  rw [hset]
  exact ⟨h.flow.pass hparsers, h.seqs,
    h.conserved.trans ((onTheWay_pass s hparsers).symm.append_right got), h.loop⟩

/-! ## The engine and the keeper -/

/-- The engine goes on, perhaps with something that was parsed. -/
theorem engine_move (h : Passage c source handed lined got s) (hmove : EngineMove c s s') :
    ∃ taken, s.parsed = taken ++ s'.parsed ∧
      Passage c source handed lined (got ++ taken) s' := by
  obtain ⟨taken, hparsed, hjobs, hparsers, -⟩ := hmove.exists_taken
  refine ⟨taken, hparsed, h.flow.engine_move hmove, h.seqs, ?_, hmove.lacksNext h.loop⟩
  have hway := h.conserved
  rw [onTheWay, hparsed] at hway
  rw [onTheWay, hjobs, hparsers]
  simp only [List.append_assoc] at hway ⊢
  refine hway.trans (List.Perm.append_left _ (List.Perm.append_left _ ?_))
  rw [← List.append_assoc s'.parsed]
  exact List.perm_append_comm

theorem keeper_move [GraphStore σ] (h : Passage c source handed lined got s)
    (hmove : KeeperMove s s') :
    Passage c source handed lined got s' := by
  have hsame : s'.onTheWay = s.onTheWay ∧ s'.engine = s.engine ∧ s'.engineAt = s.engineAt := by
    cases hmove <;> exact ⟨rfl, rfl, rfl⟩
  obtain ⟨hway, hengine, hat⟩ := hsame
  refine ⟨h.flow.keeper_move hmove, h.seqs, ?_, ?_⟩
  · rw [hway]
    exact h.conserved
  · rw [hengine, hat]
    exact h.loop

/-! ## The end -/

/-- When the engine has counted all marks, it has taken all that was handed on. -/
theorem drained (h : Passage c source handed lined got s) (hc : 0 < c.parserThreads)
    (hfinished : s.engine.finished = c.parserThreads) :
    s.jobs = [] ∧ (∀ p ∈ s.parsers, p.isEnded = true) ∧ s.parsed = [] ∧
      s.engine.early = [] ∧
      s.engine.nextSeq = handed ∧ (lined.map Job.parse).Perm got := by
  obtain ⟨-, hjobs, hall, hparsed, hearly, hnext⟩ :=
    h.flow.drained_of_finished hc hfinished (h.loop hfinished)
  refine ⟨hjobs, hall, hparsed, hearly, hnext, ?_⟩
  have hway := h.conserved
  rwa [onTheWay, hjobs, ParserPoint.filterMap_held_eq_nil fun p hp => .inl (hall p hp),
    hparsed] at hway

end Passage

end Stages

end Lineage.Session

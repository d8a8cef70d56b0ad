import Lineage.Proofs.Session.Errands
import Lineage.Proofs.Session.Flow

/-!
# What the stages hand over

`Threads.handovers` says what a step of a stage hands over: the reader a job, when its call ends,
and a parser or the engine what its call has brought.  `Threads.Recorded` is a run with all that was
handed over on the way, and every run has its record (`Threads.Steps.exists_recorded`).

A call that ends is the last one for what the reader holds, or there are more to come
(`asked_of_readerCalls`).  What a stage does when its call has ended is told for the reader and the
parsers (`Asked.stepReader`, `stepParser_of_waiting`, `stepParser_of_holding`).
-/

namespace Lineage.Session

open Lineage.Audit (LineError)
open Lineage.Graph (GraphStore)
open Lineage.Json (Bytes)
open Lineage.RingBuffer (Activity Claim Machine Outcome ProducerCall)
open Stages (Stage)

/-! ## The record -/

/-- What is handed over between the stages. -/
inductive Handover where
  /-- The reader has handed on a job. -/
  | handed (job : Job)
  /-- A parser has taken a job. -/
  | took (parser : Nat) (job : Job)
  /-- The engine has got something that was parsed. -/
  | got (p : Parsed)

namespace Handover

/-- A line that the reader has handed on. -/
def line? : Handover → Option Job
  | .handed job => if job.isMark then none else some job
  | _ => none

/-- What a parser has taken. -/
def took? : Handover → Option (Nat × Job)
  | .took parser job => some (parser, job)
  | _ => none

/-- What the engine has got. -/
def got? : Handover → Option Parsed
  | .got p => some p
  | _ => none

/-- Whether a parser has taken a mark of the end. -/
def isMarkOf (parser : Nat) : Handover → Bool
  | .took i job => i == parser && job.isMark
  | _ => false

end Handover

/-- What a call of a producer hands over. -/
def handedBy {α : Type} : ProducerCall α → Option α
  | .push item | .fill item _ => some item
  | .reserve _ | .release => none

namespace Threads

variable {σ : Type}

/-- How the call of a caller ends at its next step, if it does. -/
def ending {α : Type} (m : Machine α) (caller : Nat) (call? : Option (Activity α)) :
    Option (Outcome α) :=
  call?.bind fun call => (m.work caller call).2

/-- What the next step of a stage hands over. -/
def handovers (c : Config) (s : Threads σ) : Stage → List Handover
  | .reader =>
    match ending s.jobs 0 (s.jobsCall c .reader) with
    | some _ => (((readerCalls c s.stages.reader)[s.made]?.bind handedBy).map .handed).toList
    | none => []
  | .parser i =>
      ((ending s.jobs (i + 1) (s.jobsCall c (.parser i))).toList.flatMap Outcome.items).map
        (.took i)
  | .engine => ((ending s.parsed 0 (s.parsedCall c .engine)).toList.flatMap Outcome.items).map .got
  | .keeper => []

theorem ending_of_none {α : Type} {m : Machine α} {caller : Nat} {call? : Option (Activity α)}
    (h : m.calls caller = none) : ending m caller call? = none := by
  cases call? <;> simp [ending, Machine.work, h]

theorem ending_of_some {α : Type} {m : Machine α} {caller : Nat} {call a : Activity α}
    (h : m.calls caller = some a) : ending m caller (some call) = m.ring.outcome? a := by
  simp [ending, Machine.work, h]

/-- A stage hands nothing over while no call of it ends. -/
theorem handovers_eq_nil {c : Config} {s : Threads σ} {stage : Stage}
    (hjobs : ending s.jobs stage.caller (s.jobsCall c stage) = none)
    (hparsed : ending s.parsed stage.caller (s.parsedCall c stage) = none) :
    s.handovers c stage = [] := by
  cases stage with
  | reader => simp only [handovers, show ending s.jobs 0 (s.jobsCall c .reader) = none from hjobs]
  | parser i =>
      simp [handovers, show ending s.jobs (i + 1) (s.jobsCall c (.parser i)) = none from hjobs]
  | engine => simp [handovers, show ending s.parsed 0 (s.parsedCall c .engine) = none from hparsed]
  | keeper => rfl

/-- A run from one state to another, with all that was handed over. -/
inductive Recorded [GraphStore σ] (c : Config) (failure : Option String) (start : Threads σ) :
    List Handover → Threads σ → Prop where
  /-- No step. -/
  | none : Recorded c failure start [] start
  /-- A run and one step of a stage. -/
  | snoc {log : List Handover} {s s' : Threads σ} (stage : Stage) :
    Recorded c failure start log s →
      s.step c failure stage = some (.ok s') →
        Recorded c failure start (log ++ s.handovers c stage) s'
  /-- A run, and a thread that cannot be started. -/
  | giveUp {log : List Handover} {s : Threads σ} {stage : Stage} {setup : List Preparation} :
      Recorded c failure start log s → s.setup = .begin stage :: setup →
        s.stages.isClosed = false →
      Recorded c failure start log (s.giveUp stage)

/-- Every run has its record. -/
theorem Steps.exists_recorded [GraphStore σ] {c : Config} {failure : Option String}
    {start s : Threads σ} (h : Steps c failure start s) :
    ∃ log, Recorded c failure start log s := by
  induction h with
  | refl => exact ⟨[], .none⟩
  | snoc stage _ hstep ih =>
      obtain ⟨log, hlog⟩ := ih
      exact ⟨_, hlog.snoc stage hstep⟩
  | giveUp _ hsetup hopen ih =>
      obtain ⟨log, hlog⟩ := ih
      exact ⟨log, hlog.giveUp hsetup hopen⟩

end Threads

/-! ## The reader -/

/-- Where the reader stands when it has handed on what it has claimed positions for. -/
def ReaderPoint.ahead (c : Config) : ReaderPoint → ReaderPoint
  | .handing _ lines line seq => .reading lines line (seq + 1)
  | .closing (left + 1) result =>
      .closing (if c.parserThreads ≤ c.ringCapacity then 0 else left) result
  | point => point

/-- The line that the reader is handing on. -/
def ReaderPoint.inHand : ReaderPoint → List Job
  | .handing text _ line seq => [.line seq line text]
  | _ => []

/-- What the reader may do to hand on what it holds. -/
inductive Asked (c : Config) : ReaderPoint → ProducerCall Job → Prop where
  /-- Hand on a line. -/
  | line {text : Bytes} {lines : List Bytes} {line seq : Nat} :
      Asked c (.handing text lines line seq) (.push (.line seq line text))
  /-- Hand on a mark by itself. -/
  | mark {left : Nat} {result : Except LineError Nat} : ¬ c.parserThreads ≤ c.ringCapacity →
      Asked c (.closing (left + 1) result) (.push .finish)
  /-- Reserve room for all marks. -/
  | reserve {left : Nat} {result : Except LineError Nat} : c.parserThreads ≤ c.ringCapacity →
      Asked c (.closing (left + 1) result) (.reserve c.parserThreads)
  /-- Fill in one of them. -/
  | fill {left offset : Nat} {result : Except LineError Nat} : c.parserThreads ≤
    c.ringCapacity →
      Asked c (.closing (left + 1) result) (.fill .finish offset)
  /-- Hand on all of them. -/
  | release {left : Nat} {result : Except LineError Nat} : c.parserThreads ≤ c.ringCapacity →
      Asked c (.closing (left + 1) result) .release

/-- The reader asks for what it may, and everything is handed over with its last call. -/
theorem asked_of_readerCalls {c : Config} {point : ReaderPoint} {k : Nat} {call : ProducerCall Job}
    (h : (Threads.readerCalls c point)[k]? = some call) :
    Asked c point call ∧
      (call.settles = true ↔ ¬ k + 1 < (Threads.readerCalls c point).length) := by
  unfold Threads.readerCalls at h ⊢
  split at h
  · obtain ⟨hk, rfl⟩ := List.getElem?_eq_some_iff.mp h
    obtain rfl : k = 0 := by simpa using hk
    exact ⟨.line, by simp [ProducerCall.settles]⟩
  · split at h
    · rename_i hroom
      rw [if_pos hroom]
      have hlength : (Threads.finishCalls c.parserThreads).length = c.parserThreads + 2 := by
        simp [Threads.finishCalls]
      rw [hlength]
      cases k with
      | zero =>
          cases h
          exact ⟨.reserve hroom, by simp [ProducerCall.settles]⟩
      | succ k =>
          rw [Threads.finishCalls, List.getElem?_cons_succ] at h
          by_cases hk : k < c.parserThreads
          · rw [List.getElem?_append_left (by simpa using hk)] at h
            obtain rfl : .fill .finish k = call := by simpa [hk] using h
            exact ⟨.fill hroom, by simp [ProducerCall.settles]; omega⟩
          · rw [List.getElem?_append_right (by simpa using hk)] at h
            obtain ⟨hlast, rfl⟩ := List.getElem?_eq_some_iff.mp h
            simp only [List.length_map, List.length_range, List.length_singleton] at hlast
            obtain rfl : k = c.parserThreads := by omega
            simp only [Nat.sub_self, List.length_map, List.length_range, List.getElem_cons_zero]
            exact ⟨.release hroom, by simp [ProducerCall.settles]⟩
    · rename_i hmany
      rw [if_neg hmany]
      obtain ⟨hk, rfl⟩ := List.getElem?_eq_some_iff.mp h
      obtain rfl : k = 0 := by simpa using hk
      exact ⟨.mark hmany, by simp [ProducerCall.settles]⟩
  · cases h

/-- Only marks are filled in. -/
theorem Asked.eq_finish {c : Config} {point : ReaderPoint} {job : Job} {offset : Nat}
    (h : Asked c point (.fill job offset)) : job = .finish := by
  cases h
  rfl

/-- A reservation is made before it is released. -/
theorem pos_of_release {c : Config} {point : ReaderPoint} {k : Nat}
    (h : (Threads.readerCalls c point)[k]? = some .release) : 0 < k := by
  refine Nat.pos_of_ne_zero fun hk => ?_
  subst hk
  unfold Threads.readerCalls at h
  split at h
  · cases h
  · split at h <;> cases h
  · cases h

/-- The reader claims positions for the line that it holds, or for marks. -/
theorem Asked.filter_lines {c : Config} {point : ReaderPoint} {cl : Claim Job}
    (h : Asked c point cl.call) :
    (List.replicate cl.size (cl.item .finish)).filter (fun job => !job.isMark) = point.inHand := by
  cases cl with
  | push job => cases h <;> rfl
  | reserve n =>
      cases h
      simp [Claim.item, Job.isMark, ReaderPoint.inHand]

/-- The line that the reader hands on is recorded. -/
theorem Asked.line?_handed {c : Config} {point : ReaderPoint} {call : ProducerCall Job}
    (h : Asked c point call) :
    ((handedBy call).map Handover.handed).toList.filterMap Handover.line? = point.inHand := by
  cases h <;> rfl

/-- When all marks are handed on together, none is left. -/
theorem Asked.left_eq_zero {c : Config} {point : ReaderPoint} {call : ProducerCall Job}
    (h : Asked c point call) (hroom : c.parserThreads ≤ c.ringCapacity) {left : Nat}
    {result : Except LineError Nat} (hat : point.ahead c = .closing left result) : left = 0 := by
  cases h with
  | line => cases hat
  | mark hmany => exact absurd hroom hmany
  | reserve | fill | release =>
      rw [ReaderPoint.ahead, if_pos hroom] at hat
      cases hat
      rfl

section Stages

variable {σ : Type} {c : Config} {failure : Option String} {s u : Stages σ}

/-- When the reader has handed on what it holds, it stands where it was shown to be. -/
theorem Asked.stepReader {call : ProducerCall Job} (h : Asked c s.reader call)
    (hstep : Stages.stepReader c failure { s with jobs := [], parsed := [] } = some u) :
    ({ u with jobs := [], parsed := [] } : Stages σ) =
      { s with reader := s.reader.ahead c, jobs := [], parsed := [] } := by
  unfold Stages.stepReader at hstep
  simp only at hstep
  generalize hat : s.reader = point at h hstep
  cases h with
  | line =>
      simp only at hstep
      split at hstep <;> cases hstep
      rfl
  | mark hmany =>
      simp only [if_neg hmany] at hstep
      split at hstep <;> cases hstep
      simp only [ReaderPoint.ahead, if_neg hmany]
  | reserve hroom | fill hroom | release hroom =>
      simp only [if_pos hroom] at hstep
      split at hstep <;> cases hstep
      simp only [ReaderPoint.ahead, if_pos hroom]

/-- A parser that waits goes on with the job it has taken. -/
theorem stepParser_of_waiting {i : Nat} {job : Job} (hi : s.parsers[i]? = some .waiting)
    (hstep : Stages.stepParser c i { s with jobs := [job], parsed := [] } = some u) :
    u = { s with jobs := [], parsers := s.parsers.set i (.holding job.parse), parsed := [] } := by
  simp only [Stages.stepParser, hi] at hstep
  exact (Option.some.inj hstep).symm

/-- A parser that has handed on what it holds goes on. -/
theorem stepParser_of_holding {i : Nat} {p : Parsed} (hi : s.parsers[i]? = some (.holding p))
    (hstep : Stages.stepParser c i { s with jobs := [], parsed := [] } = some u) :
    ({ u with jobs := [], parsed := [] } : Stages σ) =
      { s with jobs := [], parsers := s.parsers.set i p.after, parsed := [] } := by
  simp only [Stages.stepParser, hi] at hstep
  split at hstep <;> cases hstep
  rfl

end Stages

end Lineage.Session

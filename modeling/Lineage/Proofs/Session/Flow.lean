import Lineage.Proofs.Session.Digest
import Lineage.Proofs.Session.Moves

/-!
# What is on its way between the stages

Every line that the reader has handed on and the engine has not come to is in exactly one place:
with the jobs, with a parser, with what was parsed, or with what came early.  The marks of the end
are counted in the same way, and in every queue they come behind the lines.  `Flow` says so of a
state, and `Flow.move` that the steps keep it.

Once the engine has counted all marks nothing is on its way any more (`Flow.drained`).
-/

namespace Lineage.Session

open Lineage.Audit (Event LineError Source isBlankLine readLine)
open Lineage.Graph (GraphStore)
open Lineage.Json (Bytes)

/-! ## Lines and marks -/

/-- Whether a job is the mark of the end. -/
def Job.isMark : Job → Bool
  | .line .. => false
  | .finish => true

namespace Parsed

/-- Whether something is the mark of the end. -/
def isMark : Parsed → Bool
  | .line .. => false
  | .finished => true

/-- Whether something is the line at a place. -/
def isLine (k : Nat) : Parsed → Bool
  | .line seq _ => seq == k
  | .finished => false

end Parsed

namespace ParserPoint

/-- What a parser holds. -/
def held : ParserPoint → Option Parsed
  | .holding p => some p
  | _ => none

/-- Whether a parser has taken the mark of the end. -/
def isDone : ParserPoint → Bool
  | .waiting => false
  | .holding p => p.isMark
  | .ended => true

end ParserPoint

/-- The number of marks that the reader still has to hand on, if there are `n` in all. -/
def ReaderPoint.left (n : Nat) : ReaderPoint → Nat
  | .closing left _ => left
  | .ended _ => 0
  | _ => n

/-- Whether the engine has left its loop. -/
def EnginePoint.isPast : EnginePoint → Bool
  | .lastCheck | .sendingLast _ | .lastCutOff | .ended => true
  | _ => false

/-- Whether the engine is about to use a line. -/
def EnginePoint.isChecking : EnginePoint → Bool
  | .checking _ => true
  | _ => false

/-- Whether the next line in order has not come to the engine. -/
def EnginePoint.lacksNext : EnginePoint → Bool
  | .taking => true
  | point => point.isPast

theorem EnginePoint.lacksNext_of_isPast {point : EnginePoint} (h : point.isPast = true) :
    point.lacksNext = true := by
  cases point <;> first | rfl | cases h

@[simp] theorem Job.isMark_parse (job : Job) : job.parse.isMark = job.isMark := by
  cases job <;> rfl

theorem Job.parse_finish : Job.finish.parse = .finished := rfl

@[simp] theorem ParserPoint.held_waiting : ParserPoint.waiting.held = none := rfl

@[simp] theorem ParserPoint.held_holding (p : Parsed) : (ParserPoint.holding p).held = some p := rfl

@[simp] theorem Parsed.held_after (p : Parsed) : p.after.held = none := by
  cases p <;> rfl

theorem ParserPoint.isDone_of_isEnded {p : ParserPoint} (h : p.isEnded = true) :
    p.isDone = true := by
  cases p <;> first | rfl | cases h

/-- Parsers that are at their ends or wait for a job hold nothing. -/
theorem ParserPoint.filterMap_held_eq_nil {l : List ParserPoint}
    (h : ∀ p ∈ l, p.isEnded = true ∨ p = .waiting) : l.filterMap held = [] := by
  refine List.filterMap_eq_nil_iff.mpr fun p hp => ?_
  rcases h p hp with hended | rfl
  · cases p <;> first | rfl | cases hended
  · rfl

/-! ## The reader -/

/-- What a reader at its end has read.  If the flag is up it may have stopped early. -/
def HasRead (source : Source) (handed : Nat) (flag : Bool) : Except LineError Nat → Prop
  | .ok n =>
      flag = true ∨
        source.failure = none ∧ n = source.lines.length ∧ handed = source.numberedLines.length
  | .error e =>
      flag = true ∧ source.error? = some e ∧ handed = source.numberedLines.length

/-- Where the reader stands, after it has handed on some lines. -/
def ReaderFits (source : Source) (handed : Nat) (flag : Bool) : ReaderPoint → Prop
  | .reading lines line seq =>
      seq = handed ∧ source.numberedLines.drop handed = numberFrom line lines ∧
        line + lines.length = source.lines.length
  | .handing text lines line seq =>
      seq = handed ∧ source.numberedLines.drop handed = (line, text) :: numberFrom line lines ∧
        line + lines.length = source.lines.length
  | .failing e => source.error? = some e ∧ handed = source.numberedLines.length
  | .closing _ result => HasRead source handed flag result
  | .ended result => HasRead source handed flag result

/-- A flag that goes up changes nothing for the reader. -/
theorem ReaderFits.raise {source : Source} {handed : Nat} {flag : Bool} {point : ReaderPoint}
    (h : ReaderFits source handed flag point) : ReaderFits source handed true point := by
  have hread : ∀ {result}, HasRead source handed flag result →
      HasRead source handed true result := by
    intro result hresult
    cases result with
    | ok n => exact .inl rfl
    | error e => exact ⟨rfl, hresult.2⟩
  cases point with
  | closing left result => exact hread h
  | ended result => exact hread h
  | _ => exact h

/-- What a line of a journal reads as. -/
def ReadsAs (source : Source) (k : Nat) (result : Except LineError (List Event)) : Prop :=
  ∃ x, source.numberedLines[k]? = some x ∧ readLine x.1 x.2 = result

namespace Stages

variable {σ : Type}

/-! ## What is on its way -/

/-- What was handed on and not taken by the engine, as the parsers make it. -/
def onTheWay (s : Stages σ) : List Parsed :=
  s.jobs.map Job.parse ++ (s.parsers.filterMap ParserPoint.held ++ s.parsed)

theorem onTheWay_append (s : Stages σ) (jobs : List Job) (reader : ReaderPoint) :
    ({ s with jobs := s.jobs ++ jobs, reader := reader } : Stages σ).onTheWay.Perm
      (jobs.map Job.parse ++ s.onTheWay) := by
  simp only [onTheWay, List.map_append, List.append_assoc]
  exact List.perm_append_comm_assoc ..

theorem onTheWay_take (s : Stages σ) {before after : List ParserPoint} {job : Job}
    {jobs : List Job} (hparsers : s.parsers = before ++ .waiting :: after)
    (hjobs : s.jobs = job :: jobs) :
    ({ s with jobs := jobs, parsers := before ++ .holding job.parse :: after } :
      Stages σ).onTheWay.Perm
      s.onTheWay := by
  have hmid := @List.perm_middle _ job.parse
    (jobs.map Job.parse ++ before.filterMap ParserPoint.held)
    (after.filterMap ParserPoint.held ++ s.parsed)
  simpa [onTheWay, hparsers, hjobs, List.filterMap_cons] using hmid

theorem onTheWay_pass (s : Stages σ) {before after : List ParserPoint} {p : Parsed}
    (hparsers : s.parsers = before ++ .holding p :: after) :
    ({ s with parsed := s.parsed ++ [p], parsers := before ++ p.after :: after } :
      Stages σ).onTheWay.Perm s.onTheWay := by
  have hmid := @List.perm_middle _ p
    (s.jobs.map Job.parse ++ before.filterMap ParserPoint.held)
    (after.filterMap ParserPoint.held ++ s.parsed)
  have hlast := List.perm_append_singleton p
    (s.jobs.map Job.parse ++ (before.filterMap ParserPoint.held ++
      (after.filterMap ParserPoint.held ++ s.parsed)))
  simpa [onTheWay, hparsers, List.filterMap_cons] using hlast.trans (by simpa using hmid.symm)

theorem onTheWay_parsed (s : Stages σ) {p : Parsed} {parsed : List Parsed}
    (hparsed : s.parsed = p :: parsed) :
    s.onTheWay.Perm (p :: ({ s with parsed := parsed } : Stages σ).onTheWay) := by
  simp only [onTheWay, hparsed, ← List.append_assoc]
  exact List.perm_middle

/-! ## The invariant -/

/-- Lines and marks are each in one place, in their order. -/
structure Flow (c : Config) (source : Source) (handed : Nat) (s : Stages σ) : Prop where
  reader : ReaderFits source handed s.flag s.reader
  handed_le : handed ≤ source.numberedLines.length
  size : s.parsers.length = c.parserThreads
  /-- A line on its way is in one place. -/
  lines : ∀ k, s.onTheWay.countP (Parsed.isLine k) + s.engine.early.countP (fun p => p.1 == k) =
    if s.engine.nextSeq ≤ k ∧ k < handed then 1 else 0
  next_le : s.engine.nextSeq ≤ handed
  readsAs : ∀ {seq result}, .line seq result ∈ s.onTheWay → ReadsAs source seq result
  early_readsAs : ∀ {seq result}, (seq, result) ∈ s.engine.early → ReadsAs source seq result
  /-- Every mark is to come, on its way, or counted. -/
  marks : s.reader.left c.parserThreads + s.onTheWay.countP Parsed.isMark + s.engine.finished =
    c.parserThreads
  ended : s.parsers.countP ParserPoint.isEnded = s.parsed.countP Parsed.isMark + s.engine.finished
  /-- No line comes behind a mark. -/
  jobs_order : s.jobs.Pairwise fun a b => a.isMark = true → b.isMark = true
  jobs_done : ∀ p ∈ s.parsers, p.isDone = true → ∀ job ∈ s.jobs, job.isMark = true
  parsed_last : (∀ p ∈ s.parsers, p.isEnded = true) →
    ∀ p, s.parsed.getLast? = some p → p.isMark = true
  /-- Where the engine stands. -/
  checking : ∀ {result}, s.engineAt = .checking result →
    ∃ k, s.engine.nextSeq = k + 1 ∧ ReadsAs source k result
  waiting : s.engineAt.lacksNext = true → s.engine.early.lookup s.engine.nextSeq = none
  past : s.engineAt.isPast = true → s.engine.finished = c.parserThreads

namespace Flow

variable {c : Config} {source : Source} {handed : Nat} {s s' : Stages σ}

/-! ## Steps of the reader -/

/-- The flag goes up. -/
theorem setFlag (h : Flow c source handed s) : Flow c source handed { s with flag := true } :=
  { h with reader := h.reader.raise }

/-- The reader goes on without handing on anything. -/
theorem setReader (h : Flow c source handed s) {point : ReaderPoint}
    (hfits : ReaderFits source handed s.flag point)
    (hleft : point.left c.parserThreads = s.reader.left c.parserThreads) :
    Flow c source handed { s with reader := point } :=
  { h with
    reader := hfits
    marks := (congrArg (· + _ + _) hleft).trans h.marks }

/-- While the reader has all marks left, none is on its way. -/
theorem no_marks (h : Flow c source handed s)
    (hleft : s.reader.left c.parserThreads = c.parserThreads) :
    s.onTheWay.countP Parsed.isMark = 0 ∧ s.engine.finished = 0 := by
  have hmarks := h.marks
  omega

theorem no_mark_in_jobs (h : Flow c source handed s)
    (hleft : s.reader.left c.parserThreads = c.parserThreads) :
    ∀ job ∈ s.jobs, job.isMark = false := by
  intro job hjob
  have hnone := List.countP_eq_zero.mp (h.no_marks hleft).1 job.parse
    (List.mem_append_left _ (List.mem_map_of_mem hjob))
  rwa [Job.isMark_parse, Bool.not_eq_true] at hnone

theorem no_parser_done (h : Flow c source handed s)
    (hleft : s.reader.left c.parserThreads = c.parserThreads) :
    ∀ p ∈ s.parsers, p.isDone = false := by
  obtain ⟨hnone, hfinished⟩ := h.no_marks hleft
  rw [List.countP_eq_zero] at hnone
  intro p hp
  cases p with
  | waiting => rfl
  | holding x =>
      have hx := hnone x (List.mem_append_right _
        (List.mem_append_left _ (List.mem_filterMap.mpr ⟨_, hp, rfl⟩)))
      exact Bool.not_eq_true _ ▸ hx
  | ended =>
      have hparsed : s.parsed.countP Parsed.isMark = 0 :=
        List.countP_eq_zero.mpr fun x hx =>
          hnone x (List.mem_append_right _ (List.mem_append_right _ hx))
      have hpos : 0 < s.parsers.countP ParserPoint.isEnded :=
        List.countP_pos_iff.mpr ⟨_, hp, rfl⟩
      have hended := h.ended
      omega

/-- The reader hands on its next line. -/
theorem hand (h : Flow c source handed s) {text : Bytes} {lines : List Bytes} {line seq : Nat}
    (hat : s.reader = .handing text lines line seq) :
    Flow c source (handed + 1)
      { s with
        jobs := s.jobs ++ [.line seq line text], reader := .reading lines line (seq + 1) } := by
  have hfits := h.reader
  rw [hat] at hfits
  obtain ⟨rfl, hdrop, htotal⟩ := hfits
  have hleft : s.reader.left c.parserThreads = c.parserThreads := by
    rw [hat]
    rfl
  have hline : source.numberedLines[seq]? = some (line, text) := by
    rw [← List.head?_drop, hdrop]
    rfl
  have hperm := s.onTheWay_append [.line seq line text] (.reading lines line (seq + 1))
  have hmarks := h.marks
  exact
    { h with
      reader := by
        refine ⟨rfl, ?_, htotal⟩
        rw [← List.tail_drop, hdrop]
        rfl
      handed_le := (List.getElem?_eq_some_iff.mp hline).1
      lines := fun k => by
        rw [hperm.countP_eq]
        have hk := h.lines k
        have hnext := h.next_le
        by_cases heq : seq = k
        · subst heq
          rw [if_neg (by omega)] at hk
          rw [if_pos ⟨hnext, Nat.lt_succ_self _⟩]
          simp only [List.map_cons, List.map_nil, List.singleton_append, Job.parse,
            List.countP_cons, Parsed.isLine, beq_self_eq_true, if_true]
          omega
        · have hrange : (s.engine.nextSeq ≤ k ∧ k < seq + 1) ↔
              (s.engine.nextSeq ≤ k ∧ k < seq) := by
            omega
          simp only [List.map_cons, List.map_nil, List.singleton_append, Job.parse,
            List.countP_cons, Parsed.isLine, beq_eq_false_iff_ne.mpr heq, hrange]
          exact hk
      next_le := Nat.le_succ_of_le h.next_le
      readsAs := fun {k result} hmem => by
        rcases List.mem_cons.mp (hperm.mem_iff.mp hmem) with heq | hold
        · cases heq
          exact ⟨_, hline, rfl⟩
        · exact h.readsAs hold
      marks := by
        rw [hperm.countP_eq]
        rw [hleft] at hmarks
        exact hmarks
      jobs_order := List.pairwise_append.mpr ⟨h.jobs_order, List.pairwise_singleton _ _,
        fun a ha b _ hmark => by
          rw [h.no_mark_in_jobs hleft a ha] at hmark
          cases hmark⟩
      jobs_done := fun p hp hdone => by
        rw [h.no_parser_done hleft p hp] at hdone
        cases hdone }

/-- The reader hands on some marks. -/
theorem handMarks (h : Flow c source handed s) {n left : Nat} {result : Except LineError Nat}
    (hat : s.reader = .closing (left + n) result) :
    Flow c source handed
      { s with jobs := s.jobs ++ List.replicate n .finish, reader := .closing left result } := by
  have hfits := h.reader
  have hmarks := h.marks
  rw [hat] at hfits hmarks
  have hperm := s.onTheWay_append (List.replicate n .finish) (.closing left result)
  rw [List.map_replicate, Job.parse_finish] at hperm
  have hnew : ∀ job ∈ List.replicate n Job.finish, job.isMark = true := by
    intro job hjob
    rw [List.eq_of_mem_replicate hjob]
    rfl
  exact
    { h with
      reader := hfits
      lines := fun k => by
        rw [hperm.countP_eq, List.countP_append, List.countP_replicate]
        simpa [Parsed.isLine] using h.lines k
      readsAs := fun {k result} hmem => by
        rcases List.mem_append.mp (hperm.mem_iff.mp hmem) with hnew | hold
        · cases List.eq_of_mem_replicate hnew
        · exact h.readsAs hold
      marks := by
        rw [hperm.countP_eq, List.countP_append, List.countP_replicate]
        simp only [ReaderPoint.left, Parsed.isMark, if_true] at hmarks ⊢
        omega
      jobs_order := List.pairwise_append.mpr ⟨h.jobs_order,
        List.pairwise_of_forall_mem_list fun _ _ b hb _ => hnew b hb, fun _ _ b hb _ => hnew b hb⟩
      jobs_done := fun p hp hdone job hjob => by
        rcases List.mem_append.mp hjob with hold | hmark
        · exact h.jobs_done p hp hdone job hold
        · exact hnew job hmark }

/-- The reader goes on without handing on a line. -/
theorem reader_move_of_not_handing (h : Flow c source handed s)
    (hmove : ReaderMove c source.failure s s')
    (hnot : ∀ text lines line seq, s.reader ≠ .handing text lines line seq) :
    Flow c source handed s' := by
  have hfits := h.reader
  cases hmove with
  | stopEarly hat hflag => exact h.setReader (.inl hflag) (by rw [hat]; rfl)
  | reachEnd hat hflag hfailure =>
      rw [hat] at hfits
      obtain ⟨rfl, hdrop, htotal⟩ := hfits
      have hall := List.drop_eq_nil_iff.mp hdrop
      have hle := h.handed_le
      exact h.setReader (.inr ⟨hfailure, htotal, by omega⟩) (by rw [hat]; rfl)
  | @fail line seq reason hat hflag hfailure =>
      rw [hat] at hfits
      obtain ⟨rfl, hdrop, htotal⟩ := hfits
      have hall := List.drop_eq_nil_iff.mp hdrop
      have hle := h.handed_le
      have herror : source.error? = some ⟨line + 1, .source reason⟩ := by
        rw [Source.error?, hfailure, ← htotal]
        rfl
      exact h.setReader ⟨herror, by omega⟩ (by rw [hat]; rfl)
  | @passBlank text lines line seq hat hflag hblank =>
      rw [hat] at hfits
      obtain ⟨rfl, hdrop, htotal⟩ := hfits
      rw [numberFrom_blank hblank] at hdrop
      rw [List.length_cons] at htotal
      exact h.setReader ⟨rfl, hdrop, by omega⟩ (by rw [hat]; rfl)
  | @read text lines line seq hat hflag hblank =>
      rw [hat] at hfits
      obtain ⟨rfl, hdrop, htotal⟩ := hfits
      rw [numberFrom_cons hblank] at hdrop
      rw [List.length_cons] at htotal
      exact h.setReader ⟨rfl, hdrop, by omega⟩ (by rw [hat]; rfl)
  | hand hat _ => exact absurd hat (hnot _ _ _ _)
  | raise hat =>
      rw [hat] at hfits
      exact h.setFlag.setReader ⟨rfl, hfits⟩ (by simp only [hat]; rfl)
  | @closeAll left result hat _ _ =>
      exact h.handMarks (by rw [Nat.zero_add]; exact hat)
  | closeOne hat _ _ => exact h.handMarks hat
  | finish hat =>
      rw [hat] at hfits
      exact h.setReader hfits (by rw [hat]; rfl)

theorem reader_move (h : Flow c source handed s) (hmove : ReaderMove c source.failure s s') :
    ∃ handed', Flow c source handed' s' := by
  have hmove' := hmove
  cases hmove with
  | hand hat _ => exact ⟨_, h.hand hat⟩
  | stopEarly hat | reachEnd hat | fail hat | passBlank hat | read hat | raise hat | closeAll hat
  | closeOne hat | finish hat =>
      refine ⟨_, h.reader_move_of_not_handing hmove' fun _ _ _ _ hhanding => ?_⟩
      rw [hat] at hhanding
      cases hhanding

/-! ## Steps of the parsers -/

/-- A parser goes on, while the others stay where they are. -/
theorem setParser (h : Flow c source handed s) {before after : List ParserPoint}
    {q q' : ParserPoint} (hparsers : s.parsers = before ++ q :: after) {jobs : List Job}
    {parsed : List Parsed}
    (hperm : ({ s with jobs := jobs, parsers := before ++ q' :: after, parsed := parsed } :
      Stages σ).onTheWay.Perm s.onTheWay)
    (hended : (before ++ q' :: after).countP ParserPoint.isEnded =
      parsed.countP Parsed.isMark + s.engine.finished)
    (hjobs : jobs.Sublist s.jobs) (hdone : q'.isDone = true → ∀ job ∈ jobs, job.isMark = true)
    (hlast : q'.isEnded = true → ∀ p, parsed.getLast? = some p → p.isMark = true) :
    Flow c source handed
      { s with jobs := jobs, parsers := before ++ q' :: after, parsed := parsed } :=
  { h with
    size := by
      rw [← h.size, hparsers, List.length_append, List.length_append]
      rfl
    lines := fun k => by
      rw [hperm.countP_eq]
      exact h.lines k
    readsAs := fun hmem => h.readsAs (hperm.mem_iff.mp hmem)
    marks := by
      rw [hperm.countP_eq]
      exact h.marks
    ended := hended
    jobs_order := h.jobs_order.sublist hjobs
    jobs_done := fun p hp hpdone job hjob => by
      have hold := fun hp => h.jobs_done p (hparsers ▸ hp) hpdone job (hjobs.subset hjob)
      rcases List.mem_append.mp hp with hbefore | hafter
      · exact hold (List.mem_append_left _ hbefore)
      · rcases List.mem_cons.mp hafter with rfl | hafter
        · exact hdone hpdone job hjob
        · exact hold (List.mem_append_right _ (List.mem_cons_of_mem _ hafter))
    parsed_last := fun hall => hlast (hall q' (List.mem_append_right _ (List.mem_cons_self ..))) }

/-- A parser takes a job. -/
theorem take (h : Flow c source handed s) {before after : List ParserPoint} {job : Job}
    {jobs : List Job} (hparsers : s.parsers = before ++ .waiting :: after)
    (hjobs : s.jobs = job :: jobs) :
    Flow c source handed
      { s with jobs := jobs, parsers := before ++ .holding job.parse :: after } := by
  have hended := h.ended
  have horder := h.jobs_order
  rw [hjobs, List.pairwise_cons] at horder
  refine h.setParser hparsers (onTheWay_take s hparsers hjobs) ?_ ?_ ?_ ?_
  · rw [hparsers] at hended
    simpa [ParserPoint.isEnded] using hended
  · rw [hjobs]
    exact List.sublist_cons_self ..
  · -- When the first job is a mark, those behind it are.
    intro hdone job' hjob'
    exact horder.1 job' hjob' (by rwa [ParserPoint.isDone, Job.isMark_parse] at hdone)
  · intro hholding
    cases hholding

/-- A parser hands on what it holds. -/
theorem pass (h : Flow c source handed s) {before after : List ParserPoint} {p : Parsed}
    (hparsers : s.parsers = before ++ .holding p :: after) :
    Flow c source handed
      { s with parsed := s.parsed ++ [p], parsers := before ++ p.after :: after } := by
  have hended := h.ended
  refine h.setParser hparsers (onTheWay_pass s hparsers) ?_ (List.Sublist.refl _) ?_ ?_
  · rw [hparsers] at hended
    cases p with
    | line seq result => simpa [ParserPoint.isEnded, Parsed.after, Parsed.isMark] using hended
    | finished =>
        simp only [Parsed.after, List.countP_append, List.countP_cons, List.countP_nil,
          ParserPoint.isEnded, Parsed.isMark] at hended ⊢
        simp only [if_true, Bool.false_eq_true, if_false] at hended ⊢
        omega
  · intro hdone
    refine h.jobs_done (.holding p)
      (hparsers ▸ List.mem_append_right _ (List.mem_cons_self ..)) ?_
    cases p with
    | line seq result => cases hdone
    | finished => rfl
  · -- A parser that ends has just passed its mark on.
    intro hisEnded q hq
    rw [List.getLast?_concat] at hq
    cases hq
    cases p with
    | line seq result => cases hisEnded
    | finished => rfl

theorem parser_move (h : Flow c source handed s) (hmove : ParserMove c s s') :
    Flow c source handed s' := by
  cases hmove with
  | take hparsers hjobs => exact h.take hparsers hjobs
  | pass hparsers _ => exact h.pass hparsers

/-! ## Steps of the engine and the keeper -/

theorem finished_le (h : Flow c source handed s) : s.engine.finished ≤ c.parserThreads := by
  have hmarks := h.marks
  omega

/-- The engine works on what it has. -/
theorem setEngine (h : Flow c source handed s) {engine : Engine} {point : EnginePoint}
    (hearly : engine.early = s.engine.early) (hnext : engine.nextSeq = s.engine.nextSeq)
    (hfinished : engine.finished = s.engine.finished)
    (hchecking : point.isChecking = false)
    (hwaiting : point.lacksNext = true → s.engine.early.lookup s.engine.nextSeq = none)
    (hpast : point.isPast = true → s.engine.finished = c.parserThreads) :
    Flow c source handed { s with engine := engine, engineAt := point } :=
  { h with
    lines := by
      simp only [hearly, hnext]
      exact h.lines
    next_le := by
      simp only [hnext]
      exact h.next_le
    early_readsAs := by
      simp only [hearly]
      exact h.early_readsAs
    marks := by
      simp only [hfinished]
      exact h.marks
    ended := by
      simp only [hfinished]
      exact h.ended
    checking := fun heq => by
      obtain rfl : point = .checking _ := heq
      cases hchecking
    waiting := by
      simp only [hearly, hnext]
      exact hwaiting
    past := by
      simp only [hfinished]
      exact hpast }

theorem mem_of_lookup {early : List (Nat × Except LineError (List Event))} {k : Nat}
    {result : Except LineError (List Event)} (h : early.lookup k = some result) :
    (k, result) ∈ early := by
  obtain ⟨before, after, rfl, _⟩ := List.lookup_eq_some_iff.mp h
  exact List.mem_append_right _ (List.mem_cons_self ..)

/-- The engine goes on with the next line. -/
theorem proceed (h : Flow c source handed s) : Flow c source handed s.proceed := by
  rcases s.proceed_eq with ⟨hnone, heq⟩ | ⟨result, hsome, heq⟩ <;> rw [heq]
  · exact h.setEngine rfl rfl rfl rfl (fun _ => hnone)
      fun hpast => by cases hpast
  · have hmem := mem_of_lookup hsome
    have hpos : 0 < s.engine.early.countP fun p => p.1 == s.engine.nextSeq :=
      List.countP_pos_iff.mpr ⟨_, hmem, beq_self_eq_true _⟩
    have hnext := h.lines s.engine.nextSeq
    have hlt : s.engine.nextSeq < handed := by
      refine Nat.lt_of_not_le fun hle => ?_
      rw [if_neg (by omega)] at hnext
      omega
    rw [if_pos ⟨Nat.le_refl _, hlt⟩] at hnext
    have hlines : ∀ k, s.onTheWay.countP (Parsed.isLine k) +
        (s.engine.early.filter fun p => p.1 != s.engine.nextSeq).countP (fun p => p.1 == k) =
          if s.engine.nextSeq + 1 ≤ k ∧ k < handed then 1 else 0 := by
      intro k
      rw [List.countP_filter]
      by_cases hk : k = s.engine.nextSeq
      · subst hk
        have hgone : s.engine.early.countP (fun p =>
            p.1 == s.engine.nextSeq && p.1 != s.engine.nextSeq) = 0 := by
          simp [List.countP_eq_zero]
        rw [hgone, if_neg (by omega)]
        omega
      · have hsame : (fun p : Nat × Except LineError (List Event) =>
            p.1 == k && p.1 != s.engine.nextSeq) = fun p => p.1 == k := by
          funext p
          by_cases hp : p.1 = k <;> simp [hp, hk]
        have hrange : (s.engine.nextSeq + 1 ≤ k ∧ k < handed) ↔
            (s.engine.nextSeq ≤ k ∧ k < handed) := by
          omega
        simp only [hsame, hrange]
        exact h.lines k
    exact
      { h with
        lines := hlines
        next_le := hlt
        early_readsAs := fun hmem => h.early_readsAs (List.mem_filter.mp hmem).1
        checking := fun heq => by
          cases heq
          exact ⟨_, rfl, h.early_readsAs hmem⟩
        waiting := fun hwait => by cases hwait
        past := fun hpast => by cases hpast }

/-- The engine takes a line that was parsed. -/
theorem takeLine (h : Flow c source handed s) {seq : Nat} {result : Except LineError (List Event)}
    {parsed : List Parsed} (hparsed : s.parsed = .line seq result :: parsed) :
    Flow c source handed { s with
      parsed := parsed
      engine := { s.engine with early := (seq, result) :: s.engine.early }
      engineAt := .cutting } := by
  have hperm := onTheWay_parsed s hparsed
  have hmarks := h.marks
  have hended := h.ended
  rw [hperm.countP_eq] at hmarks
  rw [hparsed] at hended
  have hlines : ∀ k, ({ s with parsed := parsed } : Stages σ).onTheWay.countP (Parsed.isLine k) +
      ((seq, result) :: s.engine.early).countP (fun p => p.1 == k) =
        if s.engine.nextSeq ≤ k ∧ k < handed then 1 else 0 := by
    intro k
    have hk := h.lines k
    rw [hperm.countP_eq, List.countP_cons, Parsed.isLine] at hk
    rw [List.countP_cons, ← hk, ← Nat.add_assoc]
    exact Nat.add_right_comm ..
  exact
    { h with
      lines := hlines
      readsAs := fun hmem => h.readsAs (hperm.mem_iff.mpr (List.mem_cons_of_mem _ hmem))
      early_readsAs := fun hmem => by
        rcases List.mem_cons.mp hmem with heq | hold
        · cases heq
          exact h.readsAs (hperm.mem_iff.mpr (List.mem_cons_self ..))
        · exact h.early_readsAs hold
      marks := hmarks
      ended := hended
      parsed_last := fun hall p hp => by
        refine h.parsed_last hall p ?_
        rw [hparsed, List.getLast?_cons, hp]
        rfl
      checking := fun heq => by cases heq
      waiting := fun hwait => by cases hwait
      past := fun hpast => by cases hpast }

/-- The engine counts a mark. -/
theorem takeMark (h : Flow c source handed s) {parsed : List Parsed}
    (hat : s.engineAt = .taking) (hparsed : s.parsed = .finished :: parsed) :
    Flow c source handed { s with
      parsed := parsed, engine := { s.engine with finished := s.engine.finished + 1 } } := by
  have hperm := onTheWay_parsed s hparsed
  have hmarks := h.marks
  have hended := h.ended
  rw [hperm.countP_eq, List.countP_cons, Parsed.isMark, if_pos rfl] at hmarks
  rw [hparsed, List.countP_cons, Parsed.isMark, if_pos rfl] at hended
  have hcounted : s.reader.left c.parserThreads +
      ({ s with parsed := parsed } : Stages σ).onTheWay.countP Parsed.isMark +
        (s.engine.finished + 1) = c.parserThreads := by
    omega
  exact
    { h with
      lines := fun k => by
        have hk := h.lines k
        rw [hperm.countP_eq] at hk
        exact hk
      readsAs := fun hmem => h.readsAs (hperm.mem_iff.mpr (List.mem_cons_of_mem _ hmem))
      marks := hcounted
      ended := hended.trans (Nat.add_right_comm ..)
      parsed_last := fun hall p hp => by
        refine h.parsed_last hall p ?_
        rw [hparsed, List.getLast?_cons, hp]
        rfl
      past := fun hpast => by
        simp only [hat] at hpast
        cases hpast }

/-- Where the engine stands does not matter to what it does next. -/
theorem proceed_setEngineAt (s : Stages σ) (point : EnginePoint) :
    ({ s with engineAt := point } : Stages σ).proceed = s.proceed := by
  unfold Stages.proceed
  rfl

theorem engine_move (h : Flow c source handed s) (hmove : EngineMove c s s') :
    Flow c source handed s' := by
  have hinside : ∀ {engine : Engine} {point : EnginePoint}, engine.early = s.engine.early →
      engine.nextSeq = s.engine.nextSeq → engine.finished = s.engine.finished →
      point.isChecking = false → point.lacksNext = false →
        Flow c source handed { s with engine := engine, engineAt := point } := by
    intro engine point hearly hnext hfinished hchecking hlacks
    refine h.setEngine hearly hnext hfinished hchecking (fun hwait => ?_) fun hpast => ?_
    · rw [hlacks] at hwait
      cases hwait
    · rw [EnginePoint.lacksNext_of_isPast hpast] at hlacks
      cases hlacks
  have hoverall : ∀ {engine : Engine} {point : EnginePoint}, engine.early = s.engine.early →
      engine.nextSeq = s.engine.nextSeq → engine.finished = s.engine.finished →
      point.isChecking = false → s.engineAt.isPast = true →
        Flow c source handed { s with engine := engine, engineAt := point } := by
    intro engine point hearly hnext hfinished hchecking hpast
    exact h.setEngine hearly hnext hfinished hchecking
      (fun _ => h.waiting (EnginePoint.lacksNext_of_isPast hpast)) fun _ => h.past hpast
  cases hmove with
  | takeLine hat _ hparsed =>
      rw [← proceed_setEngineAt _ .cutting]
      exact (h.takeLine hparsed).proceed
  | takeMark hat _ hparsed => exact h.takeMark hat hparsed
  | finish hat hall _ =>
      exact h.setEngine rfl rfl rfl rfl (fun _ => h.waiting (by rw [hat]; rfl))
        fun _ => Nat.le_antisymm h.finished_le hall
  | leave hat hall _ =>
      exact h.setEngine rfl rfl rfl rfl (fun _ => h.waiting (by rw [hat]; rfl))
        fun _ => Nat.le_antisymm h.finished_le hall
  | drop => exact h.proceed
  | use => exact hinside rfl rfl rfl rfl rfl
  | skip => exact hinside rfl rfl rfl rfl rfl
  | condemn => exact hinside rfl rfl rfl rfl rfl
  | raise => exact h.setFlag.proceed
  | cut => exact hinside rfl rfl rfl rfl rfl
  | goOn => exact h.proceed
  | send =>
      have hsent : Flow c source handed { s with engineAt := .cutting } :=
        hinside rfl rfl rfl rfl rfl
      exact { hsent with }
  | cutOff => exact hinside rfl rfl rfl rfl rfl
  | raiseCutOff => exact h.setFlag.proceed
  | dropLast hat _ => exact hoverall rfl rfl rfl rfl (by rw [hat]; rfl)
  | takeLast hat _ => exact hoverall rfl rfl rfl rfl (by rw [hat]; rfl)
  | sendLast hat _ _ =>
      have hsent : Flow c source handed { s with engineAt := .ended } :=
        hoverall rfl rfl rfl rfl (by rw [hat]; rfl)
      exact { hsent with }
  | cutOffLast hat _ => exact hoverall rfl rfl rfl rfl (by rw [hat]; rfl)
  | raiseLast hat =>
      have hended : Flow c source handed { s with engineAt := .ended } :=
        hoverall rfl rfl rfl rfl (by rw [hat]; rfl)
      exact hended.setFlag

theorem keeper_move [GraphStore σ] (h : Flow c source handed s) (hmove : KeeperMove s s') :
    Flow c source handed s' := by
  cases hmove with
  | raise => exact { h.setFlag with }
  | _ => exact { h with }

/-- Every step keeps lines and marks in order. -/
theorem move [GraphStore σ] (h : Flow c source handed s) (hmove : Move c source.failure s s') :
    ∃ handed', Flow c source handed' s' := by
  cases hmove with
  | reader hreader => exact h.reader_move hreader
  | parser hparser => exact ⟨_, h.parser_move hparser⟩
  | engine hengine => exact ⟨_, h.engine_move hengine⟩
  | keeper hkeeper => exact ⟨_, h.keeper_move hkeeper⟩

/-! ## The start and the end -/

theorem onTheWay_start (c : Config) (t : Tracker) (s : σ) (source : Source) :
    (Stages.start c t s source).onTheWay = [] := by
  simp only [onTheWay, Stages.start, List.map_nil, List.nil_append, List.append_nil]
  exact List.filterMap_replicate_of_none rfl

theorem start (c : Config) (t : Tracker) (s : σ) (source : Source) :
    Flow c source 0 (Stages.start c t s source) where
  reader := ⟨rfl, rfl, Nat.zero_add _⟩
  handed_le := Nat.zero_le _
  size := List.length_replicate ..
  lines k := by
    rw [onTheWay_start]
    simp [Stages.start]
  next_le := Nat.le_refl _
  readsAs hmem := by
    rw [onTheWay_start] at hmem
    cases hmem
  early_readsAs hmem := by cases hmem
  marks := by
    rw [onTheWay_start]
    rfl
  ended := by simp [Stages.start, ParserPoint.isEnded]
  jobs_order := .nil
  jobs_done p hp hdone job hjob := by cases hjob
  parsed_last _ p hp := by cases hp
  checking heq := by
    rcases start_engineAt c t s source with hat | hat <;> cases hat.symm.trans heq
  waiting _ := rfl
  past hpast := by
    rcases start_engineAt c t s source with hat | hat <;> rw [hat] at hpast <;> cases hpast

/-- A parser at its end has taken a mark, so no line is left behind it. -/
theorem jobs_eq_nil (h : Flow c source handed s) (hc : 0 < c.parserThreads)
    (hall : ∀ p ∈ s.parsers, p.isEnded = true)
    (hnone : ∀ job ∈ s.jobs, job.isMark = false) :
    s.jobs = [] := by
  obtain ⟨p, hp⟩ : ∃ p, p ∈ s.parsers := List.exists_mem_of_length_pos (h.size ▸ hc)
  refine List.eq_nil_iff_forall_not_mem.mpr fun job hjob => ?_
  have hmark := h.jobs_done p hp (ParserPoint.isDone_of_isEnded (hall p hp)) job hjob
  rw [hnone job hjob] at hmark
  cases hmark

/-- When the engine has counted all marks and waits for no line, nothing is on its way. -/
theorem drained_of_finished (h : Flow c source handed s) (hc : 0 < c.parserThreads)
    (hfinished : s.engine.finished = c.parserThreads) (hlacks : s.engineAt.lacksNext = true) :
    s.reader.left c.parserThreads = 0 ∧ s.jobs = [] ∧
      (∀ p ∈ s.parsers, p.isEnded = true) ∧
      s.parsed = [] ∧ s.engine.early = [] ∧ s.engine.nextSeq = handed := by
  have hmarks := h.marks
  have hended := h.ended
  have hcount : s.parsers.countP ParserPoint.isEnded ≤ s.parsers.length := List.countP_le_length
  have hsize := h.size
  have hall : ∀ p ∈ s.parsers, p.isEnded = true :=
    List.countP_eq_length.mp (by omega)
  have hnomark : s.onTheWay.countP Parsed.isMark = 0 := by
    omega
  rw [List.countP_eq_zero] at hnomark
  have hjobs : s.jobs = [] := by
    refine h.jobs_eq_nil hc hall fun job hjob => ?_
    have hnot := hnomark job.parse (List.mem_append_left _ (List.mem_map_of_mem hjob))
    rwa [Job.isMark_parse, Bool.not_eq_true] at hnot
  have hparsed : s.parsed = [] := by
    cases hlast : s.parsed.getLast? with
    | none => exact List.getLast?_eq_none_iff.mp hlast
    | some p =>
        have hp := List.mem_of_getLast? hlast
        exact absurd (h.parsed_last hall p hlast)
          (hnomark p (List.mem_append_right _ (List.mem_append_right _ hp)))
  have hway : s.onTheWay = [] := by
    rw [onTheWay, hjobs, ParserPoint.filterMap_held_eq_nil fun p hp => .inl (hall p hp), hparsed]
    rfl
  have hlines := h.lines
  rw [hway] at hlines
  -- A line that the engine still lacks would have come early, and it would have been taken then.
  have hnext : s.engine.nextSeq = handed := by
    refine Nat.le_antisymm h.next_le (Nat.le_of_not_lt fun hlt => ?_)
    have hone := hlines s.engine.nextSeq
    rw [if_pos ⟨Nat.le_refl _, hlt⟩, List.countP_nil, Nat.zero_add] at hone
    obtain ⟨p, hp, heq⟩ := List.countP_pos_iff.mp (hone ▸ Nat.one_pos)
    have hnone := List.lookup_eq_none_iff.mp (h.waiting hlacks) p hp
    rw [beq_iff_eq] at heq
    simp [heq] at hnone
  refine ⟨by omega, hjobs, hall, hparsed, ?_, hnext⟩
  refine List.eq_nil_iff_forall_not_mem.mpr fun p hp => ?_
  have hnone := hlines p.1
  rw [if_neg (by omega), List.countP_nil, Nat.zero_add, List.countP_eq_zero] at hnone
  exact hnone p hp (beq_self_eq_true _)

/-- When the engine has left its loop, nothing is on its way. -/
theorem drained (h : Flow c source handed s) (hc : 0 < c.parserThreads)
    (hpast : s.engineAt.isPast = true) :
    s.reader.left c.parserThreads = 0 ∧ s.jobs = [] ∧
      (∀ p ∈ s.parsers, p.isEnded = true) ∧
      s.parsed = [] ∧ s.engine.early = [] ∧ s.engine.nextSeq = handed :=
  h.drained_of_finished hc (h.past hpast) (EnginePoint.lacksNext_of_isPast hpast)

/-- When the engine has left its loop and the flag is down, everything was read. -/
theorem read_all (h : Flow c source handed s) (hc : 0 < c.parserThreads)
    (hpast : s.engineAt.isPast = true) (hflag : s.flag = false) :
    source.failure = none ∧ s.engine.nextSeq = source.numberedLines.length ∧
      ∀ {result}, s.reader = .ended result → result = .ok source.lines.length := by
  obtain ⟨hleft, _, _, _, _, hnext⟩ := h.drained hc hpast
  have hread : ∀ {result}, HasRead source handed s.flag result →
      source.failure = none ∧ handed = source.numberedLines.length ∧
        result = .ok source.lines.length := by
    intro result hresult
    rw [hflag] at hresult
    cases result with
    | ok n =>
        rcases hresult with hup | ⟨hfailure, rfl, hall⟩
        · cases hup
        · exact ⟨hfailure, hall, rfl⟩
    | error e => cases hresult.1
  have hfits := h.reader
  cases hat : s.reader with
  | closing left result =>
      rw [hat] at hfits
      obtain ⟨hfailure, hall, _⟩ := hread hfits
      exact ⟨hfailure, hnext.trans hall, fun heq => by cases heq⟩
  | ended result =>
      rw [hat] at hfits
      obtain ⟨hfailure, hall, hresult⟩ := hread hfits
      refine ⟨hfailure, hnext.trans hall, fun heq => ?_⟩
      cases heq
      exact hresult
  | _ =>
      rw [hat] at hleft
      exact absurd hleft (Nat.ne_of_gt hc)

end Flow

end Stages

end Lineage.Session

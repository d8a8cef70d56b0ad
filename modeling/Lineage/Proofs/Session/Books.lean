import Lineage.Proofs.Session.Coordination
import Lineage.Proofs.Session.Handovers
import Lineage.Proofs.Session.Queues

/-!
# The books of the ring buffers

`Books` holds what the calls on the two ring buffers have come to: the items in line, the marks of
the steps, and the record of what was handed over.  `Carries` says that the books fit the ring
buffers and the stages, and that the stages that are shown with queues (`Books.shown`) keep what
passes between them.

A quiet step of a call changes nothing that is shown, and a claim moves something through a queue.
-/

namespace Lineage.Session

open Lineage.Audit (Source)
open Lineage.RingBuffer (Activity Claim Machine Mark ProducerCall ledger)
open Stages (Stage)

/-- The reader claims positions for what it holds, and what it holds is in the queue. -/
theorem Asked.lineUp {σ : Type} {c : Config} {source : Source} {handed : Nat} {items : List Job}
    {got : List Parsed} {s : Stages σ} {reader : ReaderPoint} {cl : Claim Job} {tail : Nat}
    {want : Nat → Option Nat} {passed : Nat → Bool} {parsed : List Parsed}
    (hasked : Asked c reader cl.call)
    (htogether : c.parserThreads ≤ c.ringCapacity →
      ∀ {left result}, reader = .closing left result → left = 0 ∨ left = c.parserThreads)
    (hs : s.Sought items tail want)
    (h : Stages.Passage c source handed items got (s.queued reader items tail want passed parsed)) :
    ∃ handed', Stages.Passage c source handed'
      (items ++ List.replicate cl.size (cl.item .finish)) got
      (s.queued (reader.ahead c) (items ++ List.replicate cl.size (cl.item .finish)) tail want
        passed parsed) := by
  cases cl with
  | push job =>
      cases hasked with
      | line => exact ⟨_, h.lineUp (fun t ht hpassage => hpassage.hand ht) hs⟩
      | mark hmany =>
          have hone := h.lineUp (fun t ht hpassage => hpassage.handMark ht) hs
          rw [ReaderPoint.ahead, if_neg hmany]
          exact ⟨_, hone⟩
  | reserve n =>
      cases hasked with
      | @reserve left result hroom =>
          have hleft : left + 1 = 0 + c.parserThreads := by
            have hall := htogether hroom rfl
            omega
          rw [ReaderPoint.ahead, if_pos hroom]
          rw [hleft] at h
          exact ⟨_, h.lineUpMarks hs⟩

/-! ## The books -/

/-- What the calls on the ring buffers have come to. -/
structure Books where
  /-- The jobs in line. -/
  jobs : List Job := []
  /-- The marks of the calls between the reader and the parsers. -/
  jobMarks : List (Mark Job) := []
  /-- What was parsed, in line. -/
  parsed : List Parsed := []
  /-- The marks of the calls between the parsers and the engine. -/
  parsedMarks : List (Mark Parsed) := []
  /-- What was handed over. -/
  log : List Handover := []

namespace Books

variable {σ : Type}

/-- What the engine has got. -/
def got (b : Books) : List Parsed := b.log.filterMap Handover.got?

/-- Whether the reader has claimed positions. -/
def isHanding (b : Books) : Bool := ((ledger b.jobMarks).claim 0).isSome

/-- Whether a parser has claimed a position. -/
def isPassing (b : Books) (i : Nat) : Bool := ((ledger b.parsedMarks).claim i).isSome

/-- A parser changes its own claim only. -/
theorem isPassing_snoc_of_ne (b : Books) (r : RingBuffer Parsed) {i j : Nat} (hj : j ≠ i)
    (p : RingBuffer.ProducerPoint Parsed) :
    isPassing { b with parsedMarks := b.parsedMarks ++ [r.mark (.producing i p)] } j =
      b.isPassing j := by
  rw [isPassing, RingBuffer.claim_snoc_of_ne _ _ _ hj]
  rfl

/-- The stages with queues in the place of the ring buffers. -/
def shown (b : Books) (c : Config) (s : Threads σ) : Stages σ :=
  s.stages.queued (if b.isHanding then
    s.stages.reader.ahead c else s.stages.reader) b.jobs s.jobs.ring.tail
    (ledger b.jobMarks).want b.isPassing (b.parsed.drop b.got.length)

end Books

/-- The books fit the ring buffers and the stages. -/
structure Carries {σ : Type} (c : Config) (source : Source) (b : Books) (s : Threads σ) :
    Prop where
  jobs_lined : Machine.Lined .finish b.jobs b.jobMarks s.jobs
  parsed_lined : Machine.Lined .finished b.parsed b.parsedMarks s.parsed
  inTurn : Machine.InTurn b.parsedMarks s.parsed
  jobs_manned : Manned s.jobs (s.jobsCall c)
  parsed_manned : Manned s.parsed (s.parsedCall c)
  /-- Positions are claimed by stages that make their calls. -/
  handing : b.isHanding = true → (Threads.readerCalls c s.stages.reader)[s.made]? ≠ none
  reserving : 0 < s.made → b.isHanding = true
  seeking : ∀ {i k}, (ledger b.jobMarks).want i = some k → s.stages.parsers[i]? = some .waiting
  passing : ∀ {i}, b.isPassing i = true → ∃ p, s.stages.parsers[i]? = some (.holding p)
  collecting : (ledger b.parsedMarks).want 0 ≠ none →
    s.stages.engineAt = .taking ∧ s.stages.engine.finished < c.parserThreads
  passage : ∃ handed, Stages.Passage c source handed b.jobs b.got (b.shown c s)
  /-- The reader has all marks left, or none, if it hands them on together. -/
  together : c.parserThreads ≤ c.ringCapacity → ∀ {left result},
    s.stages.reader = .closing left result →
    left = 0 ∨ left = c.parserThreads
  took : b.log.filterMap Handover.took? = b.jobMarks.filterMap Mark.returned?
  got : b.got = (b.parsedMarks.filterMap Mark.returned?).map Prod.snd
  lines : b.jobs.filter (fun job => !job.isMark) =
    b.log.filterMap Handover.line? ++ if b.isHanding then s.stages.reader.inHand else []
  marks : ∀ i, b.log.countP (Handover.isMarkOf i) =
    if (s.stages.parsers[i]?).any ParserPoint.isDone then 1 else 0

namespace Carries

variable {σ : Type} {c : Config} {source : Source} {b : Books} {s : Threads σ}

/-- The consumers that are after positions are parsers that wait. -/
theorem sought (h : Carries c source b s) :
    s.stages.Sought b.jobs s.jobs.ring.tail (ledger b.jobMarks).want := by
  have hs := h.jobs_lined.fits.sound
  refine ⟨fun hwant => hs.taker_iff.mp ⟨_, hs.want_taker hwant⟩, fun hi hj => ?_,
    h.seeking, fun hk hlt => ?_⟩
  · exact Option.some.inj ((hs.want_taker hi).symm.trans (hs.want_taker hj))
  · refine (hs.taken_or_wanted hlt).resolve_left fun htaken => ?_
    obtain ⟨x, hstored⟩ := hs.taken_stored htaken
    have hhead := hs.owner_iff.mp ⟨_, hs.stored_owner hstored⟩
    rw [h.jobs_lined.length] at hk
    exact Nat.lt_irrefl _ (Nat.lt_of_lt_of_le hhead hk)

/-! ## Nothing is shown -/

/-- Something happens at `jobs` that nobody can see. -/
theorem setJobs (h : Carries c source b s) {m : Machine Job} {marks : List (Mark Job)}
    (hlined : Machine.Lined .finish b.jobs marks m) (hmanned : Manned m (s.jobsCall c))
    (hclaim : (ledger marks).claim = (ledger b.jobMarks).claim)
    (hwant : (ledger marks).want = (ledger b.jobMarks).want)
    (htail : m.ring.tail = s.jobs.ring.tail)
    (hreturned : marks.filterMap Mark.returned? = b.jobMarks.filterMap Mark.returned?) :
    Carries c source { b with jobMarks := marks } { s with jobs := m } := by
  have hhanding : Books.isHanding { b with jobMarks := marks } = b.isHanding := by
    rw [Books.isHanding, hclaim, ← Books.isHanding]
  have hshown : Books.shown { b with jobMarks := marks } c { s with jobs := m } = b.shown c s := by
    simp only [Books.shown, hhanding, hwant, htail]
    rfl
  exact
    { h with
      jobs_lined := hlined
      jobs_manned := hmanned
      handing := by rw [hhanding]; exact h.handing
      reserving := by rw [hhanding]; exact h.reserving
      seeking := by simp only [hwant]; exact h.seeking
      passage := by rw [hshown]; exact h.passage
      took := h.took.trans hreturned.symm
      lines := by rw [hhanding]; exact h.lines }

/-- Something happens at `parsed` that nobody can see. -/
theorem setParsed (h : Carries c source b s) {m : Machine Parsed} {marks : List (Mark Parsed)}
    (hlined : Machine.Lined .finished b.parsed marks m) (hturn : Machine.InTurn marks m)
    (hmanned : Manned m (s.parsedCall c))
    (hclaim : (ledger marks).claim = (ledger b.parsedMarks).claim)
    (hcollecting : (ledger marks).want 0 ≠ none → s.stages.engineAt = .taking ∧
      s.stages.engine.finished < c.parserThreads)
    (hreturned : marks.filterMap Mark.returned? = b.parsedMarks.filterMap Mark.returned?) :
    Carries c source { b with parsedMarks := marks } { s with parsed := m } := by
  have hpassing : Books.isPassing { b with parsedMarks := marks } = b.isPassing := by
    funext i
    rw [Books.isPassing, hclaim, ← Books.isPassing]
  have hshown : Books.shown { b with parsedMarks := marks } c { s with parsed := m } =
      b.shown c s := by
    simp only [Books.shown, hpassing]
    rfl
  exact
    { h with
      parsed_lined := hlined
      inTurn := hturn
      parsed_manned := hmanned
      passing := by rw [hpassing]; exact h.passing
      collecting := hcollecting
      passage := by rw [hshown]; exact h.passage
      got := h.got.trans (congrArg _ hreturned.symm) }

/-- A role changes hands at `jobs`. -/
theorem holdJobs (h : Carries c source b s) {r : RingBuffer Job}
    (hr : Machine.Unnoticed (ledger b.jobMarks) s.jobs.ring r ∧ r.head = s.jobs.ring.head ∧
      r.tail = s.jobs.ring.tail) :
    Carries c source b { s with jobs := { s.jobs with ring := r } } :=
  h.setJobs (h.jobs_lined.setRing hr.1 hr.2.1) (h.jobs_manned.of_calls_eq rfl) rfl rfl hr.2.2 rfl

/-- A role changes hands at `parsed`. -/
theorem holdParsed (h : Carries c source b s) {r : RingBuffer Parsed}
    (hr : Machine.Unnoticed (ledger b.parsedMarks) s.parsed.ring r ∧
      r.head = s.parsed.ring.head ∧ r.tail = s.parsed.ring.tail) :
    Carries c source b { s with parsed := { s.parsed with ring := r } } :=
  h.setParsed (h.parsed_lined.setRing hr.1 hr.2.1) (h.inTurn.of_tail_eq hr.1.grows.consumers hr.2.2)
    (h.parsed_manned.of_calls_eq rfl) rfl h.collecting rfl

theorem leave (h : Carries c source b s) (post : Post) : Carries c source b (s.leave post) := by
  cases post with
  | jobs role => exact h.holdJobs (RingBuffer.unnoticed_leave h.jobs_lined.fits.sound role)
  | parsed role => exact h.holdParsed (RingBuffer.unnoticed_leave h.parsed_lined.fits.sound role)

theorem setSetup (h : Carries c source b s) (setup : List Preparation) :
    Carries c source b { s with setup := setup } :=
  { h with }

theorem prepare (h : Carries c source b s) {p : Preparation} {s' : Threads σ}
    (hprepare : Threads.prepare s p = .ok s') : Carries c source b s' := by
  cases p with
  | begin stage =>
      cases hprepare
      exact h
  | take post =>
      rcases Threads.take_cases hprepare with
        ⟨role, r, rfl, htake, rfl⟩ | ⟨role, r, rfl, htake, rfl⟩
      · exact h.holdJobs (RingBuffer.unnoticed_take h.jobs_lined.fits.sound htake)
      · exact h.holdParsed (RingBuffer.unnoticed_take h.parsed_lined.fits.sound htake)

/-- The session gives up. -/
theorem giveUp (h : Carries c source b s) (stage : Stage) :
    Carries c source b (s.giveUp stage) := by
  have hclosed : Carries c source b { s with stages := { s.stages with keeper := .ended none } } :=
    { h with
      passage := by
        obtain ⟨handed, hpassage⟩ := h.passage
        exact ⟨handed, { hpassage with flow := { hpassage.flow with } }⟩ }
  unfold Threads.giveUp
  generalize ({ s with stages := { s.stages with keeper := .ended none } } : Threads σ) =
    s₁ at hclosed
  induction stage.posts.reverse generalizing s₁ with
  | nil => exact hclosed
  | cons post posts ih => exact ih _ (hclosed.leave post)

section Begin

variable {n : Nat} {stage : Stage}

/-- A stage begins a call on `jobs`. -/
theorem beginJobs (h : Carries c source b s) (hco : Threads.Coordinated c n s) {call : Activity Job}
    (hcall : s.jobsCall c stage = some call) (hbegun : .begin stage ∉ s.setup)
    (hnone : s.jobs.calls stage.caller = none) :
    Carries c source b { s with jobs := s.jobs.setCall stage.caller (some call) } := by
  have hmay := hco.mayStart_jobs hcall hbegun hnone
  cases stage with
  | reader =>
      obtain ⟨asked, hasked, rfl⟩ := Option.map_eq_some_iff.mp hcall
      refine h.setJobs (h.jobs_lined.produce hmay (fun a offset hfill => ?_) fun hrelease => ?_)
        (h.jobs_manned.begin hcall fun id p heq => ?_) rfl rfl rfl rfl
      · subst hfill
        exact (asked_of_readerCalls hasked).1.eq_finish
      · subst hrelease
        exact Option.isSome_iff_exists.mp (h.reserving (pos_of_release hasked))
      · cases heq
        exact ⟨asked, rfl⟩
  | parser i =>
      obtain rfl : call = .consuming i .readTail := by
        simp only [Threads.jobsCall] at hcall
        split at hcall <;> cases hcall
        rfl
      exact h.setJobs (h.jobs_lined.consume hmay)
        (h.jobs_manned.begin hcall fun id p heq => by cases heq)
        rfl rfl rfl rfl
  | engine | keeper => cases hcall

/-- A stage begins a call on `parsed`. -/
theorem beginParsed (h : Carries c source b s) (hco : Threads.Coordinated c n s)
    {call : Activity Parsed} (hcall : s.parsedCall c stage = some call)
    (hbegun : .begin stage ∉ s.setup) (hnone : s.parsed.calls stage.caller = none) :
    Carries c source b { s with parsed := s.parsed.setCall stage.caller (some call) } := by
  have hmay := hco.mayStart_parsed hcall hbegun hnone
  have hturn : Machine.InTurn b.parsedMarks (s.parsed.setCall stage.caller (some call)) :=
    h.inTurn.of_tail_eq rfl rfl
  cases stage with
  | parser i =>
      have hstart : ∃ p : Parsed, call = .producing i (ProducerCall.push p).start := by
        simp only [Threads.parsedCall] at hcall
        split at hcall <;> cases hcall
        exact ⟨_, rfl⟩
      obtain ⟨p, rfl⟩ := hstart
      refine h.setParsed (h.parsed_lined.produce hmay (fun a offset hfill => by cases hfill)
        fun hrelease => by cases hrelease) hturn
          (h.parsed_manned.begin hcall fun id q heq => ?_) rfl
        h.collecting rfl
      cases heq
      exact ⟨.push p, rfl⟩
  | engine =>
      obtain rfl : call = .consuming 0 .readTail := by
        simp only [Threads.parsedCall] at hcall
        split at hcall
        · split at hcall <;> cases hcall
          rfl
        · cases hcall
      exact h.setParsed (h.parsed_lined.consume hmay) hturn
        (h.parsed_manned.begin hcall fun id p heq => by cases heq) rfl h.collecting rfl
  | reader | keeper => cases hcall

end Begin

/-- A call on `jobs` goes on quietly. -/
theorem quietJobs (h : Carries c source b s) {n : Nat} {a : Activity Job}
    (ha : s.jobs.calls n = some a) (hquiet : a.isQuiet = true) :
    Carries c source { b with jobMarks := b.jobMarks ++ [s.jobs.ring.mark a] }
      { s with jobs := s.jobs.advance n a } := by
  obtain ⟨-, htail, hclaim, hwant, hreturned, -⟩ :=
    RingBuffer.stepActivity_quiet hquiet s.jobs.ring (ledger b.jobMarks)
  refine h.setJobs (h.jobs_lined.advance_of_nil ha (RingBuffer.linesUp_of_quiet hquiet))
    (h.jobs_manned.advance ha)
    ?_ ?_ htail ?_
  · rw [RingBuffer.ledger_snoc, hclaim]
  · rw [RingBuffer.ledger_snoc, hwant]
  · rw [List.filterMap_append, List.filterMap_cons_none hreturned,
      List.filterMap_nil, List.append_nil]

/-- A call on `parsed` goes on quietly. -/
theorem quietParsed (h : Carries c source b s) {n : Nat} {a : Activity Parsed}
    (ha : s.parsed.calls n = some a) (hquiet : a.isQuiet = true) :
    Carries c source { b with parsedMarks := b.parsedMarks ++ [s.parsed.ring.mark a] }
      { s with parsed := s.parsed.advance n a } := by
  obtain ⟨-, -, hclaim, hwant, hreturned, -⟩ :=
    RingBuffer.stepActivity_quiet hquiet s.parsed.ring (ledger b.parsedMarks)
  refine h.setParsed (h.parsed_lined.advance_of_nil ha (RingBuffer.linesUp_of_quiet hquiet))
    (h.inTurn.advance h.parsed_lined.fits ha) (h.parsed_manned.advance ha) ?_ ?_ ?_
  · rw [RingBuffer.ledger_snoc, hclaim]
  · rw [RingBuffer.ledger_snoc, hwant]
    exact h.collecting
  · rw [List.filterMap_append, List.filterMap_cons_none hreturned,
      List.filterMap_nil, List.append_nil]

/-! ## Claims -/

/-- The reader claims positions for what it holds. -/
theorem claimJobs (h : Carries c source b s) {n id : Nat} {cl : Claim Job}
    (ha : s.jobs.calls n = some (.producing id (.claim cl))) :
    Carries c source
      { b with
        jobs := b.jobs ++ List.replicate cl.size (cl.item .finish)
        jobMarks := b.jobMarks ++ [s.jobs.ring.mark (.producing id (.claim cl))] }
      { s with jobs := s.jobs.advance n (.producing id (.claim cl)) } := by
  obtain ⟨rfl, rfl, call, hasked, rfl⟩ := Threads.reader_of_manned h.jobs_manned ha
  have hasked' := (asked_of_readerCalls hasked).1
  have hidle : b.isHanding = false := by
    rw [Books.isHanding, (h.jobs_lined.fits.calls ha).2.1.1]
    rfl
  have hpassage := h.passage
  have hlines := h.lines
  simp only [Books.shown, hidle] at hpassage hlines
  obtain ⟨handed, hpassage⟩ := hpassage
  have hhanding : Books.isHanding
      { b with
        jobs := b.jobs ++ List.replicate cl.size (cl.item .finish)
        jobMarks := b.jobMarks ++ [s.jobs.ring.mark (.producing 0 (.claim cl))] } = true := by
    rw [Books.isHanding, RingBuffer.claim_snoc_claim]
    rfl
  exact
    { h with
      jobs_lined := h.jobs_lined.advance ha
      jobs_manned := h.jobs_manned.advance ha
      handing := fun _ hnone => by
        rw [hnone] at hasked
        cases hasked
      reserving := fun _ => hhanding
      seeking := fun hwant => h.seeking (by rwa [RingBuffer.want_snoc_producing] at hwant)
      passage := by
        obtain ⟨handed', hnext⟩ := hasked'.lineUp h.together h.sought hpassage
        refine ⟨handed', ?_⟩
        rw [Books.shown, hhanding, if_pos rfl, RingBuffer.want_snoc_producing]
        exact hnext
      took := by
        rw [List.filterMap_append]
        exact h.took.trans (List.append_nil _).symm
      lines := by
        rw [List.filter_append, hlines, hasked'.filter_lines, hhanding]
        simp }

/-- A parser claims a position. -/
theorem wantJobs (h : Carries c source b s) {setup : List Preparation}
    (hstaffed : Staffed s.jobs (s.jobsCall c) setup) {n id : Nat}
    (ha : s.jobs.calls n = some (.consuming id .claim)) :
    Carries c source { b with jobMarks := b.jobMarks ++ [s.jobs.ring.mark (.consuming id .claim)] }
      { s with jobs := s.jobs.advance n (.consuming id .claim) } := by
  obtain ⟨rfl, hat⟩ := Threads.parser_of_staffed hstaffed ha
  have hnone : (ledger b.jobMarks).want id = none := (h.jobs_lined.fits.calls ha).2.1
  have hhanding : Books.isHanding
      { b with jobMarks := b.jobMarks ++ [s.jobs.ring.mark (.consuming id .claim)] } =
        b.isHanding := by
    rw [Books.isHanding, RingBuffer.claim_snoc_consuming]
    rfl
  exact
    { h with
      jobs_lined := h.jobs_lined.advance_of_nil ha rfl
      jobs_manned := h.jobs_manned.advance ha
      handing := by rw [hhanding]; exact h.handing
      reserving := by rw [hhanding]; exact h.reserving
      seeking := fun {i k} hwant => by
        by_cases hi : i = id
        · rw [hi]
          exact hat
        · exact h.seeking ((RingBuffer.want_snoc_of_ne _ _ _ hi _).symm.trans hwant)
      passage := by
        obtain ⟨handed, hpassage⟩ := h.passage
        refine ⟨handed, ?_⟩
        rw [Books.shown, hhanding]
        exact hpassage.seek hat hnone (RingBuffer.want_snoc_claim ..)
          fun j hj => RingBuffer.want_snoc_of_ne _ _ _ hj _
      took := by
        rw [List.filterMap_append]
        exact h.took.trans (List.append_nil _).symm
      lines := by rw [hhanding]; exact h.lines }

/-- A parser claims a position for what it holds. -/
theorem claimParsed (h : Carries c source b s) {n id : Nat} {cl : Claim Parsed}
    (ha : s.parsed.calls n = some (.producing id (.claim cl))) :
    Carries c source
      { b with
        parsed := b.parsed ++ List.replicate cl.size (cl.item .finished)
        parsedMarks := b.parsedMarks ++ [s.parsed.ring.mark (.producing id (.claim cl))] }
      { s with parsed := s.parsed.advance n (.producing id (.claim cl)) } := by
  obtain ⟨rfl, p, hat, hof⟩ := Threads.parser_of_manned h.parsed_manned ha
  obtain rfl : cl = .push p := by
    cases cl <;> cases hof
    rfl
  have hidle : b.isPassing id = false := by
    rw [Books.isPassing, (h.parsed_lined.fits.calls ha).2.1.1]
    rfl
  have hself : Books.isPassing
      { b with
        parsedMarks := b.parsedMarks ++
          [s.parsed.ring.mark (.producing id (.claim (.push p)))] } id = true := by
    rw [Books.isPassing, RingBuffer.claim_snoc_claim]
    rfl
  have hothers : ∀ j, j ≠ id → Books.isPassing
      { b with
        parsedMarks := b.parsedMarks ++
          [s.parsed.ring.mark (.producing id (.claim (.push p)))] } j =
        b.isPassing j :=
    fun j hj => b.isPassing_snoc_of_ne s.parsed.ring hj _
  -- The engine has got no more than is in line.
  have hle : b.got.length ≤ b.parsed.length := by
    rw [h.got, h.inTurn.returned_eq_take h.parsed_lined, List.length_take]
    exact Nat.min_le_right ..
  exact
    { h with
      parsed_lined := h.parsed_lined.advance ha
      inTurn := h.inTurn.advance h.parsed_lined.fits ha
      parsed_manned := h.parsed_manned.advance ha
      passing := fun {i} hpassing => by
        by_cases hi : i = id
        · rw [hi]
          exact ⟨p, hat⟩
        · exact h.passing ((hothers i hi).symm.trans hpassing)
      collecting := by
        rw [RingBuffer.want_snoc_producing]
        exact h.collecting
      passage := by
        obtain ⟨handed, hpassage⟩ := h.passage
        refine ⟨handed, ?_⟩
        have hnext := hpassage.offer hat hidle hself hothers
        rw [← List.drop_append_of_le_length hle] at hnext
        exact hnext
      got := by
        rw [List.filterMap_append]
        exact h.got.trans (congrArg _ (List.append_nil _).symm) }

/-- The engine claims a position. -/
theorem wantParsed (h : Carries c source b s) {setup : List Preparation}
    (hstaffed : Staffed s.parsed (s.parsedCall c) setup) {n id : Nat}
    (ha : s.parsed.calls n = some (.consuming id .claim)) :
    Carries c source
      { b with parsedMarks := b.parsedMarks ++ [s.parsed.ring.mark (.consuming id .claim)] }
      { s with parsed := s.parsed.advance n (.consuming id .claim) } := by
  obtain ⟨rfl, rfl, hat, hlt⟩ := Threads.engine_of_staffed hstaffed ha
  refine h.setParsed (h.parsed_lined.advance_of_nil ha rfl)
    (h.inTurn.advance h.parsed_lined.fits ha)
    (h.parsed_manned.advance ha) (RingBuffer.claim_snoc_consuming ..) (fun _ => ⟨hat, hlt⟩) ?_
  rw [List.filterMap_append]
  exact List.append_nil _

end Carries

end Lineage.Session

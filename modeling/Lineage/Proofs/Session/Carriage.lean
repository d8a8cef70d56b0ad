import Lineage.Proofs.Session.Books

/-!
# What the ring buffers carry

When its call has ended, a stage goes on with what the call has brought or handed on.  That was
shown since the call claimed its position, so the stages with queues stay where they are
(`Carries.settle`, `Carries.bring`, `Carries.pass`), except for the engine, which takes what it got
from its queue (`Carries.goEngine`).

So every step keeps the books (`Carries.step`).
-/

namespace Lineage.Session

open Lineage.Audit (Source)
open Lineage.Graph (GraphStore)
open Lineage.RingBuffer (Activity Machine Mark Outcome ProducerCall ledger)
open Stages (Stage)

theorem filterMap_append_of_none {β γ : Type} {f : β → Option γ} {l more : List β}
    (h : ∀ x ∈ more, f x = none) :
    (l ++ more).filterMap f = l.filterMap f := by
  rw [List.filterMap_append, List.filterMap_eq_nil_iff.mpr h, List.append_nil]

namespace Carries

variable {σ : Type} {c : Config} {source : Source} {b : Books} {s : Threads σ}

/-! ## The reader goes on -/

section Reader

variable {p : RingBuffer.ProducerPoint Job} {call : ProducerCall Job} {o : Outcome Job}

/-- The marks of the end are not recorded as lines, and nobody has taken them yet. -/
theorem handMarks (h : Carries c source b s) {more : List Handover}
    (hmore : ∀ x ∈ more, ∃ job : Job, x = .handed job ∧ job.isMark = true) :
    Carries c source { b with log := b.log ++ more } s := by
  have hnone : ∀ {β : Type} (f : Handover → Option β),
      (∀ job : Job, job.isMark = true → f (.handed job) = none) →
      (b.log ++ more).filterMap f = b.log.filterMap f := by
    refine fun f hf => filterMap_append_of_none fun x hx => ?_
    obtain ⟨job, rfl, hjob⟩ := hmore x hx
    exact hf job hjob
  have hgot : Books.got { b with log := b.log ++ more } = b.got := hnone _ fun _ _ => rfl
  have hshown : Books.shown { b with log := b.log ++ more } c s = b.shown c s := by
    simp only [Books.shown, hgot]
    rfl
  exact
    { h with
      passage := by
        rw [hgot, hshown]
        exact h.passage
      took := (hnone _ fun _ _ => rfl).trans h.took
      got := hgot.trans h.got
      lines := by
        rw [hnone _ fun job hjob => if_pos hjob]
        exact h.lines
      marks := fun i => by
        have hzero : more.countP (Handover.isMarkOf i) = 0 := by
          refine List.countP_eq_zero.mpr fun x hx => ?_
          obtain ⟨job, rfl, -⟩ := hmore x hx
          exact Bool.false_ne_true
        rw [List.countP_append, hzero]
        exact h.marks i }

/-- A call of the reader ends, and there are more to make. -/
theorem endQuietly (h : Carries c source b s) (ha : s.jobs.calls 0 = some (.producing 0 p))
    (hended : (s.jobs.ring.stepProducer 0 p).2 = .ended o) (ho : ¬ o.IsFailure)
    (hcall : (Threads.readerCalls c s.stages.reader)[s.made]? = some call)
    (hmore : s.made + 1 < (Threads.readerCalls c s.stages.reader).length)
    (hquiet : (Activity.producing 0 p).isQuiet = true) (hsettles : call.settles = false) :
    Carries c source
      { b with
        jobMarks := b.jobMarks ++ [s.jobs.ring.mark (.producing 0 p)]
        log := b.log ++ ((handedBy call).map .handed).toList }
      { s with jobs := s.jobs.advance 0 (.producing 0 p), made := s.made + 1 } := by
  have hquietly := h.quietJobs ha hquiet
  have hclaimed : b.isHanding = true :=
    Option.isSome_iff_exists.mpr (RingBuffer.claim_of_ends
      (h.jobs_lined.fits.calls ha).2 hquiet hended ho)
  have hhanding : Books.isHanding
      { b with jobMarks := b.jobMarks ++ [s.jobs.ring.mark (.producing 0 p)] } = true := by
    obtain ⟨-, -, hclaim, -⟩ :=
      RingBuffer.stepActivity_quiet hquiet s.jobs.ring (ledger b.jobMarks)
    rw [Books.isHanding, RingBuffer.ledger_snoc, hclaim]
    exact hclaimed
  have hmarks : ∀ x ∈ ((handedBy call).map Handover.handed).toList,
      ∃ job : Job, x = .handed job ∧ job.isMark = true := by
    intro x hx
    cases call with
    | push | release => cases hsettles
    | reserve => cases hx
    | fill job offset =>
        obtain rfl := (asked_of_readerCalls hcall).1.eq_finish
        exact ⟨.finish, by simpa [handedBy] using hx, rfl⟩
  have hnone : (s.jobs.advance 0 (.producing 0 p)).calls 0 = none :=
    s.jobs.calls_advance_of_ends (o := o) (by simp [RingBuffer.outcome?, hended]) 0
  have hmade : Carries c source
      { b with jobMarks := b.jobMarks ++ [s.jobs.ring.mark (.producing 0 p)] }
      { s with jobs := s.jobs.advance 0 (.producing 0 p), made := s.made + 1 } :=
    { hquietly with
      jobs_manned := hquietly.jobs_manned.change .reader
        (fun other hother => by cases other <;> first | rfl | exact absurd rfl hother) (.inr hnone)
      handing := fun _ hlast => Nat.not_lt_of_le (List.getElem?_eq_none_iff.mp hlast) hmore
      reserving := fun _ => hhanding }
  exact hmade.handMarks hmarks

/-- The reader has handed on what it holds. -/
theorem settle (h : Carries c source b s) (ha : s.jobs.calls 0 = some (.producing 0 .rest))
    (hcall : Asked c s.stages.reader call) :
    Carries c source
      { b with
        jobMarks := b.jobMarks ++ [s.jobs.ring.mark (.producing 0 .rest)]
        log := b.log ++ ((handedBy call).map .handed).toList }
      { s with
        stages := { s.stages with reader := s.stages.reader.ahead c, jobs := [], parsed := [] }
        jobs := s.jobs.advance 0 (.producing 0 .rest)
        made := 0 } := by
  have hclaimed : b.isHanding = true := Option.isSome_iff_exists.mpr (h.jobs_lined.claim_of_rest ha)
  have hhanding : Books.isHanding
      { b with
        jobMarks := b.jobMarks ++ [s.jobs.ring.mark (.producing 0 .rest)]
        log := b.log ++ ((handedBy call).map .handed).toList } = false := by
    rw [Books.isHanding, RingBuffer.claim_snoc_rest]
    rfl
  have hnone : (s.jobs.advance 0 (.producing 0 .rest)).calls 0 = none :=
    s.jobs.calls_advance_of_ends (o := .done) rfl 0
  have hhanded : ∀ {β : Type} (f : Handover → Option β),
      (∀ job : Job, f (.handed job) = none) →
      (b.log ++ ((handedBy call).map Handover.handed).toList).filterMap f = b.log.filterMap f := by
    refine fun f hf => filterMap_append_of_none fun x hx => ?_
    obtain ⟨job, -, rfl⟩ := Option.map_eq_some_iff.mp (Option.mem_toList.mp hx)
    exact hf job
  have hgot : Books.got
      { b with
        jobMarks := b.jobMarks ++ [s.jobs.ring.mark (.producing 0 .rest)]
        log := b.log ++ ((handedBy call).map .handed).toList } = b.got := hhanded _ fun _ => rfl
  have hpassage := h.passage
  have hlines := h.lines
  rw [hclaimed, if_pos rfl] at hlines
  rw [Books.shown, hclaimed, if_pos rfl] at hpassage
  exact
    { h with
      jobs_lined := h.jobs_lined.advance_of_nil ha rfl
      jobs_manned := (h.jobs_manned.advance ha).change .reader
        (fun other hother => by cases other <;> first | rfl | exact absurd rfl hother) (.inr hnone)
      parsed_manned := h.parsed_manned
      handing := fun hstill => by
        rw [hhanding] at hstill
        cases hstill
      reserving := fun hpos => absurd hpos (Nat.lt_irrefl 0)
      seeking := fun hwant => h.seeking (by rwa [RingBuffer.want_snoc_producing] at hwant)
      passage := by
        rw [Books.shown, hhanding, hgot, RingBuffer.want_snoc_producing]
        exact hpassage
      together := fun hroom {left result} hat => .inl (hcall.left_eq_zero hroom hat)
      took := by
        rw [hhanded _ fun _ => rfl, List.filterMap_append]
        exact h.took.trans (List.append_nil _).symm
      got := hgot.trans h.got
      lines := by
        rw [hhanding, List.filterMap_append, hcall.line?_handed]
        exact hlines.trans (List.append_nil _).symm
      marks := fun i => by
        have hzero : ((handedBy call).map Handover.handed).toList.countP
            (Handover.isMarkOf i) = 0 := by
          cases handedBy call <;> rfl
        rw [List.countP_append, hzero]
        exact h.marks i }

end Reader

/-! ## The parsers go on -/

section Parser

variable {i : Nat}

/-- A parser that waits has claimed no position for anything it has found. -/
theorem isPassing_of_waiting (h : Carries c source b s)
    (hi : s.stages.parsers[i]? = some .waiting) :
    b.isPassing i = false := by
  refine Bool.eq_false_iff.mpr fun hpassing => ?_
  obtain ⟨p, hp⟩ := h.passing hpassing
  rw [hi] at hp
  cases hp

/-- A parser that holds something is after no job. -/
theorem want_of_holding (h : Carries c source b s) {p : Parsed}
    (hi : s.stages.parsers[i]? = some (.holding p)) :
    (ledger b.jobMarks).want i = none := by
  refine Option.eq_none_iff_forall_ne_some.mpr fun k hwant => ?_
  rw [h.seeking hwant] at hi
  cases hi

/-- When a parser that is after no job goes on, the parsers that are after one wait. -/
theorem seeking_of_alike (h : Carries c source b s) {u : Stages σ}
    (halike : Stages.Alike (.parser i) s.stages u) {want : Nat → Option Nat}
    (hself : want i = none) (hothers : ∀ j, j ≠ i → want j = (ledger b.jobMarks).want j)
    {j k : Nat} (hwant : want j = some k) : u.parsers[j]? = some .waiting := by
  have hj : j ≠ i := by
    rintro rfl
    rw [hself] at hwant
    cases hwant
  rw [halike.parser j fun heq => hj (Stage.parser.inj heq).symm]
  exact h.seeking ((hothers j hj).symm.trans hwant)

/-- When a parser that hands nothing on goes on, the parsers that hand something on hold it. -/
theorem passing_of_alike (h : Carries c source b s) {u : Stages σ}
    (halike : Stages.Alike (.parser i) s.stages u) {passed : Nat → Bool}
    (hself : passed i = false) (hothers : ∀ j, j ≠ i → passed j = b.isPassing j) {j : Nat}
    (hpassed : passed j = true) : ∃ p, u.parsers[j]? = some (.holding p) := by
  have hj : j ≠ i := by
    rintro rfl
    rw [hself] at hpassed
    cases hpassed
  rw [halike.parser j fun heq => hj (Stage.parser.inj heq).symm]
  exact h.passing ((hothers j hj).symm.trans hpassed)

/-- A parser has taken a job. -/
theorem bring (h : Carries c source b s) {k : Nat} {job : Job}
    (ha : s.jobs.calls (i + 1) = some (.consuming i (.rest k (some job))))
    (hi : s.stages.parsers[i]? = some .waiting) :
    Carries c source
      { b with
        jobMarks := b.jobMarks ++ [s.jobs.ring.mark (.consuming i (.rest k (some job)))]
        log := b.log ++ [.took i job] }
      { s with
        stages := { s.stages with
          jobs := [], parsers := s.stages.parsers.set i (.holding job.parse), parsed := [] }
        jobs := s.jobs.advance (i + 1) (.consuming i (.rest k (some job))) } := by
  have hlt := (List.getElem?_eq_some_iff.mp hi).1
  have hwant : (ledger b.jobMarks).want i = some k := (h.jobs_lined.fits.calls ha).2.1
  obtain ⟨x, hx, hitem⟩ := h.jobs_lined.returned_step ha rfl
  obtain rfl : job = x := Option.some.inj hx
  have hnone : (s.jobs.advance (i + 1) (.consuming i (.rest k (some job)))).calls (i + 1) = none :=
    s.jobs.calls_advance_of_ends (o := .item job) rfl (i + 1)
  have halike : Stages.Alike (.parser i) s.stages
      { s.stages with
        jobs := [], parsers := s.stages.parsers.set i (.holding job.parse), parsed := [] } :=
    Stages.alike_set rfl rfl rfl rfl rfl
  have hself : (ledger (b.jobMarks ++ [s.jobs.ring.mark (.consuming i (.rest k (some job)))])).want
      i = none :=
    RingBuffer.want_snoc_rest ..
  have hothers : ∀ j, j ≠ i →
      (ledger (b.jobMarks ++ [s.jobs.ring.mark (.consuming i (.rest k (some job)))])).want j =
      (ledger b.jobMarks).want j := fun j hj => RingBuffer.want_snoc_of_ne _ _ _ hj _
  have hhanding : Books.isHanding
      { b with
        jobMarks := b.jobMarks ++ [s.jobs.ring.mark (.consuming i (.rest k (some job)))]
        log := b.log ++ [.took i job] } = b.isHanding := by
    rw [Books.isHanding, RingBuffer.claim_snoc_consuming]
    rfl
  have hgot : Books.got
      { b with
        jobMarks := b.jobMarks ++ [s.jobs.ring.mark (.consuming i (.rest k (some job)))]
        log := b.log ++ [.took i job] } = b.got := by
    rw [Books.got, List.filterMap_append]
    exact List.append_nil _
  exact
    { h with
      jobs_lined := h.jobs_lined.advance_of_nil ha rfl
      jobs_manned := (h.jobs_manned.advance ha).jobs_alike halike (fun _ => rfl) (.inr hnone)
      parsed_manned := h.parsed_manned.parsed_alike halike (.inl (by simp [Threads.parsedCall, hi]))
      handing := by rw [hhanding]; exact h.handing
      reserving := by rw [hhanding]; exact h.reserving
      seeking := h.seeking_of_alike halike hself hothers
      passing := h.passing_of_alike halike (h.isPassing_of_waiting hi) fun _ _ => rfl
      passage := by
        obtain ⟨handed, hpassage⟩ := h.passage
        refine ⟨handed, ?_⟩
        -- The parser was shown with the job since it claimed the position.
        have hsame : ∀ (reader : ReaderPoint) (parsed : List Parsed),
            Stages.queued _ reader b.jobs s.jobs.ring.tail _
            b.isPassing parsed = s.stages.queued reader b.jobs s.jobs.ring.tail
              (ledger b.jobMarks).want
              b.isPassing parsed := fun reader parsed =>
          Stages.queued_set hi (q := .holding job.parse)
            (by rw [hself, hwant, Option.bind_some, hitem, h.isPassing_of_waiting hi]; rfl)
            fun j hj => ⟨hothers j hj, rfl⟩
        rw [Books.shown, hhanding, hgot]
        rw [Books.shown, ← hsame] at hpassage
        exact hpassage
      took := by
        rw [List.filterMap_append, List.filterMap_append, h.took]
        rfl
      got := hgot.trans h.got
      lines := by
        rw [hhanding, List.filterMap_append]
        exact h.lines.trans (congrArg (· ++ _) (List.append_nil _).symm)
      marks := fun j => by
        rw [List.countP_append, h.marks j]
        by_cases hj : j = i
        · subst hj
          simp only [List.getElem?_set_self hlt, hi]
          simp [Handover.isMarkOf, ParserPoint.isDone]
        · simp only [List.getElem?_set_ne (Ne.symm hj)]
          simp [Handover.isMarkOf, Ne.symm hj] }

/-- A parser has handed on what it holds. -/
theorem pass (h : Carries c source b s) {p : Parsed}
    (ha : s.parsed.calls (i + 1) = some (.producing i .rest))
    (hi : s.stages.parsers[i]? = some (.holding p)) :
    Carries c source
      { b with parsedMarks := b.parsedMarks ++ [s.parsed.ring.mark (.producing i .rest)] }
      { s with
        stages := { s.stages with
          jobs := [], parsers := s.stages.parsers.set i p.after, parsed := [] }
        parsed := s.parsed.advance (i + 1) (.producing i .rest) } := by
  have hlt := (List.getElem?_eq_some_iff.mp hi).1
  have hclaimed : b.isPassing i = true :=
    Option.isSome_iff_exists.mpr (h.parsed_lined.claim_of_rest ha)
  have hnone : (s.parsed.advance (i + 1) (.producing i .rest)).calls (i + 1) = none :=
    s.parsed.calls_advance_of_ends (o := .done) rfl (i + 1)
  have halike : Stages.Alike (.parser i) s.stages
      { s.stages with jobs := [], parsers := s.stages.parsers.set i p.after, parsed := [] } :=
    Stages.alike_set rfl rfl rfl rfl rfl
  have hself : Books.isPassing
      { b with parsedMarks := b.parsedMarks ++ [s.parsed.ring.mark (.producing i .rest)] } i =
        false := by
    rw [Books.isPassing, RingBuffer.claim_snoc_rest]
    rfl
  have hothers : ∀ j, j ≠ i → Books.isPassing
      { b with parsedMarks := b.parsedMarks ++ [s.parsed.ring.mark (.producing i .rest)] } j =
        b.isPassing j :=
    fun j hj => b.isPassing_snoc_of_ne s.parsed.ring hj _
  exact
    { h with
      parsed_lined := h.parsed_lined.advance_of_nil ha rfl
      inTurn := h.inTurn.advance h.parsed_lined.fits ha
      jobs_manned :=
        h.jobs_manned.jobs_alike halike (fun _ => rfl) (.inl (by simp [Threads.jobsCall, hi]))
      parsed_manned := (h.parsed_manned.advance ha).parsed_alike halike (.inr hnone)
      seeking := h.seeking_of_alike halike (h.want_of_holding hi) fun _ _ => rfl
      passing := h.passing_of_alike halike hself hothers
      collecting := by
        rw [RingBuffer.want_snoc_producing]
        exact h.collecting
      passage := by
        obtain ⟨handed, hpassage⟩ := h.passage
        refine ⟨handed, ?_⟩
        -- The parser was shown without what it held since it claimed the position.
        have hsame : ∀ (reader : ReaderPoint) (parsed : List Parsed),
            Stages.queued _ reader b.jobs s.jobs.ring.tail
            (ledger b.jobMarks).want _ parsed = s.stages.queued reader b.jobs s.jobs.ring.tail
              (ledger b.jobMarks).want b.isPassing parsed := fun reader parsed =>
          Stages.queued_set hi (q := p.after)
            (by rw [h.want_of_holding hi, Option.bind_none, hclaimed, Parsed.ahead_after]; rfl)
            fun j hj => ⟨rfl, hothers j hj⟩
        rw [Books.shown, ← hsame] at hpassage
        exact hpassage
      got := by
        rw [List.filterMap_append]
        exact h.got.trans (congrArg _ (List.append_nil _).symm)
      marks := fun j => by
        rw [h.marks j]
        by_cases hj : j = i
        · subst hj
          simp only [List.getElem?_set_self hlt, hi]
          cases p <;> rfl
        · simp only [List.getElem?_set_ne (Ne.symm hj)] }

end Parser

/-! ## The engine and the keeper go on -/

/-- The engine goes on with what it has taken. -/
theorem goEngine (h : Carries c source b s) {taken rest : List Parsed} {u : Stages σ}
    {m : Machine Parsed} {marks : List (Mark Parsed)}
    (hmove : Stages.EngineMove c { s.stages with jobs := [], parsed := taken } u)
    (hall : u.parsed = []) (hrest : b.parsed.drop b.got.length = taken ++ rest)
    (hlined : Machine.Lined .finished b.parsed marks m) (hturn : Machine.InTurn marks m)
    (hmanned : Manned m (s.parsedCall c))
    (hidle : s.parsedCall c .engine = none ∨ m.calls 0 = none)
    (hclaim : (ledger marks).claim = (ledger b.parsedMarks).claim)
    (hwant : (ledger marks).want 0 = none)
    (hreturned : (marks.filterMap Mark.returned?).map Prod.snd =
      (b.parsedMarks.filterMap Mark.returned?).map Prod.snd ++ taken) :
    Carries c source { b with parsedMarks := marks, log := b.log ++ taken.map .got }
      { s with stages := { u with jobs := [], parsed := [] }, parsed := m } := by
  obtain ⟨-, -, -, hparsers, hreader⟩ := hmove.exists_taken
  have halike : Stages.Alike .engine s.stages { u with jobs := [], parsed := [] } :=
    { hmove.alike with }
  have hlog : ∀ {β : Type} (f : Handover → Option β), (∀ p, f (.got p) = none) →
      (b.log ++ taken.map Handover.got).filterMap f = b.log.filterMap f := by
    refine fun f hf => filterMap_append_of_none fun x hx => ?_
    obtain ⟨p, -, rfl⟩ := List.mem_map.mp hx
    exact hf p
  have hgot : Books.got { b with parsedMarks := marks, log := b.log ++ taken.map .got } =
      b.got ++ taken := by
    rw [Books.got, List.filterMap_append, List.filterMap_map, Books.got]
    exact congrArg _ List.filterMap_some
  have hpassing : Books.isPassing { b with parsedMarks := marks, log := b.log ++ taken.map .got } =
      b.isPassing := by
    funext i
    rw [Books.isPassing, hclaim, ← Books.isPassing]
  exact
    { h with
      parsed_lined := hlined
      inTurn := hturn
      jobs_manned := h.jobs_manned.jobs_alike halike (fun _ => rfl) (.inl rfl)
      parsed_manned := hmanned.parsed_alike halike hidle
      handing := by
        simp only [hreader]
        exact h.handing
      seeking := by
        simp only [hparsers]
        exact h.seeking
      passing := by
        simp only [hparsers, hpassing]
        exact h.passing
      collecting := fun hcollecting => absurd hwant hcollecting
      passage := by
        obtain ⟨handed, hpassage⟩ := h.passage
        refine ⟨handed, ?_⟩
        rw [Books.shown, hrest] at hpassage
        have hnext := hpassage.collect hmove hall
        have hdrop : b.parsed.drop (b.got ++ taken).length = rest := by
          rw [List.length_append, ← List.drop_drop, hrest, List.drop_left]
        rw [Books.shown, hpassing, hgot, hdrop]
        simp only [hreader]
        exact hnext
      together := by
        simp only [hreader]
        exact h.together
      took := (hlog _ fun _ => rfl).trans h.took
      got := by rw [hgot, h.got, hreturned]
      lines := by
        simp only [hreader]
        rw [hlog _ fun _ => rfl]
        exact h.lines
      marks := fun i => by
        have hzero : (taken.map Handover.got).countP (Handover.isMarkOf i) = 0 := by
          simp [List.countP_map, Function.comp_def, Handover.isMarkOf]
        simp only [hparsers]
        rw [List.countP_append, hzero]
        exact h.marks i }

/-- The keeper goes on. -/
theorem goKeeper [GraphStore σ] (h : Carries c source b s) {u : Stages σ}
    (hmove : Stages.KeeperMove { s.stages with jobs := [], parsed := [] } u) :
    Carries c source b { s with stages := { u with jobs := [], parsed := [] } } := by
  have halike : Stages.Alike .keeper s.stages { u with jobs := [], parsed := [] } :=
    { hmove.alike with }
  have hsame : u.reader = s.stages.reader ∧ u.parsers = s.stages.parsers ∧
      u.engine = s.stages.engine ∧
      u.engineAt = s.stages.engineAt := by
    cases hmove <;> exact ⟨rfl, rfl, rfl, rfl⟩
  obtain ⟨hreader, hparsers, hengine, hat⟩ := hsame
  exact
    { h with
      jobs_manned := h.jobs_manned.jobs_alike halike (fun _ => rfl) (.inl rfl)
      parsed_manned := h.parsed_manned.parsed_alike halike (.inl rfl)
      handing := by
        simp only [hreader]
        exact h.handing
      seeking := by
        simp only [hparsers]
        exact h.seeking
      passing := by
        simp only [hparsers]
        exact h.passing
      collecting := by
        simp only [hengine, hat]
        exact h.collecting
      passage := by
        obtain ⟨handed, hpassage⟩ := h.passage
        refine ⟨handed, ?_⟩
        have hnext := hpassage.keeper_move hmove.queued
        rw [Books.shown]
        simp only [hreader]
        exact hnext
      together := by
        simp only [hreader]
        exact h.together
      lines := by
        simp only [hreader]
        exact h.lines
      marks := by
        simp only [hparsers]
        exact h.marks }

/-- The reader goes on without handing on anything. -/
theorem goReader (h : Carries c source b s) {u : Stages σ}
    (hmove : Stages.ReaderMove c source.failure { s.stages with jobs := [], parsed := [] } u)
    (hnone : s.jobsCall c .reader = none) :
    Carries c source b { s with stages := { u with jobs := [], parsed := [] }, made := 0 } := by
  have halike : Stages.Alike .reader s.stages { u with jobs := [], parsed := [] } :=
    { hmove.alike with }
  have hlast : (Threads.readerCalls c s.stages.reader)[s.made]? = none := by
    simpa [Threads.jobsCall] using hnone
  have hhanding : b.isHanding = false := by
    by_contra hclaimed
    exact h.handing (Bool.not_eq_false _ ▸ hclaimed) hlast
  have hmade : s.made = 0 := by
    by_contra hpos
    rw [h.reserving (Nat.pos_of_ne_zero hpos)] at hhanding
    cases hhanding
  have hcalls : Threads.readerCalls c s.stages.reader = [] := by
    rw [hmade] at hlast
    exact List.eq_nil_of_length_eq_zero (Nat.le_zero.mp (List.getElem?_eq_none_iff.mp hlast))
  have hsame : u.parsers = s.stages.parsers ∧ u.engine = s.stages.engine ∧
      u.engineAt = s.stages.engineAt := by
    cases hmove <;> exact ⟨rfl, rfl, rfl⟩
  obtain ⟨hparsers, hengine, hat⟩ := hsame
  exact
    { h with
      jobs_manned := h.jobs_manned.jobs_alike halike (fun hne => absurd rfl hne) (.inl hnone)
      parsed_manned := h.parsed_manned.parsed_alike halike (.inl rfl)
      handing := fun hclaimed => by
        rw [hhanding] at hclaimed
        cases hclaimed
      reserving := fun hpos => absurd hpos (Nat.lt_irrefl 0)
      seeking := by
        simp only [hparsers]
        exact h.seeking
      passing := by
        simp only [hparsers]
        exact h.passing
      collecting := by
        simp only [hengine, hat]
        exact h.collecting
      passage := by
        obtain ⟨handed, hpassage⟩ := h.passage
        refine ⟨handed, ?_⟩
        rw [Books.shown, hhanding] at hpassage ⊢
        refine hpassage.reader_move (hmove.queued hcalls) rfl fun text lines line seq hhanding => ?_
        rw [show s.stages.reader = .handing text lines line seq from hhanding] at hcalls
        cases hcalls
      together := fun hroom left result hclosing => by
        cases hmove with
        | stopEarly | reachEnd | raise =>
            cases hclosing
            exact .inr rfl
        | closeAll =>
            cases hclosing
            exact .inl rfl
        | closeOne _ hmany => exact absurd hroom (Nat.not_le_of_lt hmany)
        | fail | passBlank | read | hand | finish => cases hclosing
      lines := by
        have hlines := h.lines
        rw [hhanding] at hlines ⊢
        exact hlines
      marks := by
        simp only [hparsers]
        exact h.marks }

/-! ## Every step -/

section Steps

variable [GraphStore σ] {s' : Threads σ} {stage : Stage}

/-- A call on `jobs` ends, and its stage goes on. -/
theorem endJobs (h : Carries c source b s) (hco : Threads.Coordinated c s.begun s)
    {call a : Activity Job} {o : Outcome Job} (hcall : s.jobsCall c stage = some call)
    (ha : s.jobs.calls stage.caller = some a) (hout : s.jobs.ring.outcome? a = some o)
    (hgo : Threads.goOn c source.failure stage o.items []
      { s with jobs := s.jobs.advance stage.caller a } = some s') :
    ∃ b', Carries c source b' s' ∧ b'.log = b.log ++ s.handovers c stage := by
  have ho := hco.not_fails_jobs ha hout
  have hending : Threads.ending s.jobs stage.caller (s.jobsCall c stage) = some o := by
    rw [hcall, Threads.ending_of_some ha, hout]
  cases stage with
  | reader =>
      cases a with
      | consuming id p =>
          exact absurd (Threads.parser_of_staffed hco.jobs_staffed ha).1 (Nat.succ_ne_zero id).symm
      | producing id p =>
          obtain ⟨-, rfl, asked, hasked, hof⟩ := Threads.reader_of_manned h.jobs_manned ha
          obtain ⟨hasked', hlast⟩ := asked_of_readerCalls hasked
          have hended := RingBuffer.ended_of_outcome? hout
          have hlog : s.handovers c .reader = ((handedBy asked).map .handed).toList := by
            simp only [Threads.handovers, show Threads.ending s.jobs 0 (s.jobsCall c .reader) =
              some o from hending, hasked, Option.bind_some]
          simp only [Threads.goOn] at hgo
          rcases hof.ends hended ho with ⟨rfl, hsettles⟩ | ⟨hquiet, hsettles⟩
          · cases hended
            rw [if_neg (hlast.mp hsettles)] at hgo
            obtain ⟨s₁, halone, rfl⟩ := Option.map_eq_some_iff.mp hgo
            obtain ⟨u, hstep, rfl⟩ := Option.map_eq_some_iff.mp halone
            have hnext := hasked'.stepReader hstep
            simp only [hnext]
            exact ⟨_, h.settle ha hasked', by rw [hlog]⟩
          · have hmore : s.made + 1 < (Threads.readerCalls c s.stages.reader).length := by
              by_contra hnot
              rw [hlast.mpr hnot] at hsettles
              cases hsettles
            rw [if_pos hmore] at hgo
            cases hgo
            exact ⟨_, h.endQuietly ha hended ho hasked hmore hquiet hsettles, by rw [hlog]⟩
  | parser i =>
      cases a with
      | producing id p =>
          exact absurd (Threads.reader_of_manned h.jobs_manned ha).1 (Nat.succ_ne_zero i)
      | consuming id p =>
          obtain ⟨hi, hat⟩ := Threads.parser_of_staffed hco.jobs_staffed ha
          obtain rfl : i = id := Nat.succ.inj hi
          obtain ⟨k, job, rfl, rfl⟩ := RingBuffer.exists_rest_of_ends hout ho
          obtain ⟨u, hstep, rfl⟩ := Option.map_eq_some_iff.mp hgo
          obtain rfl := stepParser_of_waiting hat hstep
          refine ⟨_, h.bring ha hat, ?_⟩
          simp only [Threads.handovers,
            show Threads.ending s.jobs (i + 1) (s.jobsCall c (.parser i)) =
                some (.item job) from hending]
          rfl
  | engine | keeper => cases hcall

/-- A call on `parsed` ends, and its stage goes on. -/
theorem endParsed (h : Carries c source b s) (hco : Threads.Coordinated c s.begun s)
    {call a : Activity Parsed} {o : Outcome Parsed} (hnone : s.jobsCall c stage = none)
    (hcall : s.parsedCall c stage = some call) (ha : s.parsed.calls stage.caller = some a)
    (hout : s.parsed.ring.outcome? a = some o)
    (hgo : Threads.goOn c source.failure stage [] o.items
      { s with parsed := s.parsed.advance stage.caller a } = some s') :
    ∃ b', Carries c source b' s' ∧ b'.log = b.log ++ s.handovers c stage := by
  have ho := hco.parsed.not_fails ha hout
  have hending : Threads.ending s.parsed stage.caller (s.parsedCall c stage) = some o := by
    rw [hcall, Threads.ending_of_some ha, hout]
  cases stage with
  | parser i =>
      cases a with
      | consuming id p =>
          exact absurd (Threads.engine_of_staffed hco.parsed_staffed ha).1 (Nat.succ_ne_zero i)
      | producing id p =>
          obtain ⟨hi, x, hat, hof⟩ := Threads.parser_of_manned h.parsed_manned ha
          obtain rfl : i = id := Nat.succ.inj hi
          have hended := RingBuffer.ended_of_outcome? hout
          obtain ⟨rfl, -⟩ := (hof.ends hended ho).resolve_right fun hquiet => by cases hquiet.2
          cases hended
          obtain ⟨u, hstep, rfl⟩ := Option.map_eq_some_iff.mp hgo
          have hnext := stepParser_of_holding hat hstep
          simp only [hnext]
          refine ⟨_, h.pass ha hat, ?_⟩
          simp [Threads.handovers, hnone, Threads.ending]
  | engine =>
      cases a with
      | producing id p =>
          exact absurd (Threads.parser_of_manned h.parsed_manned ha).1 (Nat.succ_ne_zero id).symm
      | consuming id p =>
          obtain ⟨-, rfl, hat, hlt⟩ := Threads.engine_of_staffed hco.parsed_staffed ha
          obtain ⟨k, x, rfl, rfl⟩ := RingBuffer.exists_rest_of_ends hout ho
          obtain ⟨u, hstep, rfl⟩ := Option.map_eq_some_iff.mp hgo
          have hmove := Stages.stepEngine_move hstep
          obtain ⟨y, hy, hitem⟩ := h.inTurn.next_returned h.parsed_lined ha
          obtain rfl : x = y := Option.some.inj hy
          have hlength : b.got.length = (b.parsedMarks.filterMap Mark.returned?).length := by
            rw [h.got, List.length_map]
          rw [← hlength] at hitem
          obtain ⟨hin, rfl⟩ := List.getElem?_eq_some_iff.mp hitem
          refine ⟨_, h.goEngine hmove (hmove.parsed_eq_nil rfl hat hlt)
            (List.drop_eq_getElem_cons hin)
            (h.parsed_lined.advance_of_nil ha rfl) (h.inTurn.advance h.parsed_lined.fits ha)
            (h.parsed_manned.advance ha) (.inr (s.parsed.calls_advance_of_ends hout 0))
            (RingBuffer.claim_snoc_consuming ..) (RingBuffer.want_snoc_rest ..) ?_, ?_⟩
          · rw [List.filterMap_append, List.map_append]
            rfl
          · simp only [Threads.handovers,
              show Threads.ending s.parsed 0 (s.parsedCall c .engine) = some (.item _) from hending]
            rfl
  | reader | keeper => cases hcall

/-- A stage takes a step that needs no call. -/
theorem alone (h : Carries c source b s) (hjobs : s.jobsCall c stage = none)
    (hparsed : s.parsedCall c stage = none)
    (hgo : Threads.goOn c source.failure stage [] [] s = some s') :
    ∃ b', Carries c source b' s' ∧ b'.log = b.log := by
  cases stage with
  | reader =>
      have hlast : ¬ s.made + 1 < (Threads.readerCalls c s.stages.reader).length := by
        have hle : (Threads.readerCalls c s.stages.reader).length ≤ s.made := by
          simpa [Threads.jobsCall] using hjobs
        omega
      simp only [Threads.goOn, if_neg hlast] at hgo
      obtain ⟨s₁, halone, rfl⟩ := Option.map_eq_some_iff.mp hgo
      obtain ⟨u, hstep, rfl⟩ := Option.map_eq_some_iff.mp halone
      exact ⟨b, h.goReader (Stages.stepReader_move hstep) hjobs, rfl⟩
  | parser i =>
      obtain ⟨u, hstep, rfl⟩ := Option.map_eq_some_iff.mp hgo
      have hnone : Stages.stepParser c i { s.stages with jobs := [], parsed := [] } = none := by
        cases hat : s.stages.parsers[i]? with
        | none => simp [Stages.stepParser, hat]
        | some p =>
            cases p with
            | waiting => simp [Threads.jobsCall, hat] at hjobs
            | holding x => simp [Threads.parsedCall, hat] at hparsed
            | ended => simp [Stages.stepParser, hat]
      rw [show Stages.step c source.failure (.parser i) _ = none from hnone] at hstep
      cases hstep
  | engine =>
      obtain ⟨u, hstep, rfl⟩ := Option.map_eq_some_iff.mp hgo
      have hmove := Stages.stepEngine_move hstep
      obtain ⟨taken, hnil, -⟩ := hmove.exists_taken
      have hwant : (ledger b.parsedMarks).want 0 = none := by
        by_contra hcollecting
        obtain ⟨hat, hlt⟩ := h.collecting hcollecting
        simp [Threads.parsedCall, hat, hlt] at hparsed
      refine ⟨_, h.goEngine hmove (List.append_eq_nil_iff.mp hnil.symm).2 rfl h.parsed_lined
        h.inTurn h.parsed_manned (.inl hparsed) rfl hwant (List.append_nil _).symm,
          List.append_nil _⟩
  | keeper =>
      obtain ⟨u, hstep, rfl⟩ := Option.map_eq_some_iff.mp hgo
      exact ⟨b, h.goKeeper (Stages.stepKeeper_move hstep), rfl⟩

/-- Every step keeps the books. -/
theorem step (h : Carries c source b s) (hco : Threads.Coordinated c s.begun s)
    (hstep : s.step c source.failure stage = some (.ok s')) :
    ∃ b', Carries c source b' s' ∧ b'.log = b.log ++ s.handovers c stage := by
  have hquiet : ∀ {b' : Books} {t : Threads σ},
      Threads.ending s.jobs stage.caller (s.jobsCall c stage) = none →
      Threads.ending s.parsed stage.caller (s.parsedCall c stage) = none →
        Carries c source b' t →
        b'.log = b.log → ∃ b', Carries c source b' t ∧
          b'.log = b.log ++ s.handovers c stage := by
    intro b' t hjobs hparsed ht hlog
    exact ⟨b', ht, by rw [Threads.handovers_eq_nil hjobs hparsed, hlog, List.append_nil]⟩
  cases Threads.step_deed hstep with
  | prepare hkeeper _ hprepare =>
      subst hkeeper
      exact hquiet rfl rfl ((h.setSetup _).prepare hprepare) rfl
  | leave hjobs hparsed => exact hquiet (by rw [hjobs]; rfl) (by rw [hparsed]; rfl) (h.leave _) rfl
  | beginJobs hbegun hcall hnone =>
      exact hquiet (Threads.ending_of_none hnone)
        (by rw [Threads.parsedCall_of_jobsCall hcall]; rfl)
        (h.beginJobs hco hcall hbegun hnone) rfl
  | beginParsed hbegun hjobs hcall hnone =>
      exact hquiet (by rw [hjobs]; rfl) (Threads.ending_of_none hnone)
        (h.beginParsed hco hcall hbegun hnone) rfl
  | workJobs hcall ha hout =>
      have hjobs : Threads.ending s.jobs stage.caller (s.jobsCall c stage) = none := by
        rw [hcall, Threads.ending_of_some ha, hout]
      have hparsed : Threads.ending s.parsed stage.caller (s.parsedCall c stage) = none := by
        rw [Threads.parsedCall_of_jobsCall hcall]
        rfl
      rcases RingBuffer.claim_or_quiet hout with ⟨id, cl, rfl⟩ | ⟨id, rfl⟩ | hsilent
      · exact hquiet hjobs hparsed (h.claimJobs ha) rfl
      · exact hquiet hjobs hparsed (h.wantJobs hco.jobs_staffed ha) rfl
      · exact hquiet hjobs hparsed (h.quietJobs ha hsilent) rfl
  | workParsed hnone hcall ha hout =>
      have hjobs : Threads.ending s.jobs stage.caller (s.jobsCall c stage) = none := by
        rw [hnone]
        rfl
      have hparsed : Threads.ending s.parsed stage.caller (s.parsedCall c stage) = none := by
        rw [hcall, Threads.ending_of_some ha, hout]
      rcases RingBuffer.claim_or_quiet hout with ⟨id, cl, rfl⟩ | ⟨id, rfl⟩ | hsilent
      · exact hquiet hjobs hparsed (h.claimParsed ha) rfl
      · exact hquiet hjobs hparsed (h.wantParsed hco.parsed_staffed ha) rfl
      · exact hquiet hjobs hparsed (h.quietParsed ha hsilent) rfl
  | endJobs hcall ha hout hgo => exact h.endJobs hco hcall ha hout hgo
  | endParsed hnone hcall ha hout hgo => exact h.endParsed hco hnone hcall ha hout hgo
  | alone hjobs hparsed hgo =>
      obtain ⟨b', hb', hlog⟩ := h.alone hjobs hparsed hgo
      exact hquiet (by rw [hjobs]; rfl) (by rw [hparsed]; rfl) hb' hlog

end Steps

end Carries

end Lineage.Session

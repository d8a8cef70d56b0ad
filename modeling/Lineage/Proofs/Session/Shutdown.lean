import Lineage.Proofs.Session.Carriage
import Lineage.Proofs.Session.RingUse

/-!
# How the stages shut down

When the engine leaves its loop, it has counted the marks of all parsers, and nothing is left
between the stages (`Threads.shutdown_clean`): whatever the reader has handed on was taken by one
parser, what that parser made of it was got by the engine, every parser has taken one mark, and both
ring buffers are empty.  It does not matter how the ingest ends, or in which order the stages take
their steps.

The stages that are shown with queues are drained (`Stages.Passage.drained`), so no call is ahead of
the ring buffers any more, and these are as empty as the queues (`Machine.Lined.spent`).
-/

namespace Lineage.Session

open Lineage.Audit (Source readLine)
open Lineage.Graph (GraphStore)
open Lineage.Json (Bytes)
open Lineage.RingBuffer (Machine ledger)
open Stages (Stage)

/-! ## Finding what is there once -/

/-- Of what is counted once there is one. -/
theorem exists_only_getElem? {β : Type} {q : β → Bool} {l : List β} (h : l.countP q = 1) :
    ∃ (n : Nat) (a : β), l[n]? = some a ∧ q a = true ∧
      ∀ (m : Nat) (x : β), l[m]? = some x → q x = true → m = n := by
  induction l with
  | nil => cases h
  | cons a l ih =>
      rw [List.countP_cons] at h
      by_cases ha : q a = true
      · rw [if_pos ha] at h
        have hnone := List.countP_eq_zero.mp (Nat.succ.inj h)
        refine ⟨0, a, rfl, ha, fun m x hx hq => ?_⟩
        cases m with
        | zero => rfl
        | succ m => exact absurd hq (hnone x (List.mem_of_getElem? hx))
      · rw [if_neg ha] at h
        obtain ⟨n, x, hn, hx, honly⟩ := ih h
        refine ⟨n + 1, x, hn, hx, fun m y hy hq => ?_⟩
        cases m with
        | zero =>
            cases hy
            exact absurd hq ha
        | succ m => exact congrArg (· + 1) (honly m y hy hq)

theorem countP_filterMap_any {β γ : Type} (f : β → Option γ) (q : γ → Bool) (l : List β) :
    (l.filterMap f).countP q = l.countP fun a => (f a).any q := by
  rw [List.countP_filterMap]
  refine List.countP_congr fun a _ => ?_
  cases f a <;> simp

theorem Job.isLine_parse (job : Job) (k : Nat) : job.parse.isLine k = (job.seq? == some k) := by
  cases job with
  | line seq number text => simp [Job.parse, Parsed.isLine, Job.seq?]
  | finish => rfl

namespace Threads

variable {σ : Type}

/-- Nothing is left between the stages, and all that was handed on was handed over once. -/
structure Cleared (c : Config) (log : List Handover) (s : Threads σ) : Prop where
  /-- A line that the reader has handed on was taken once, by one parser. -/
  taken : ∀ seq number text, .handed (.line seq number text) ∈ log →
    ∃! x : Nat × Nat, log[x.1]? = some (.took x.2 (.line seq number text))
  /-- What the parser made of it was got once. -/
  got : ∀ seq number text, .handed (.line seq number text) ∈ log →
    ∃! n : Nat, log[n]? = some (.got (.line seq (readLine number text)))
  /-- Every parser has taken one mark. -/
  finish : ∀ i, i < c.parserThreads → ∃! n : Nat, log[n]? = some (.took i .finish)
  /-- The engine has come to all lines. -/
  early : s.stages.engine.early = []
  nextSeq : s.stages.engine.nextSeq = (log.filterMap Handover.line?).length
  jobs : s.jobs.ring.IsEmpty
  parsed : s.parsed.ring.IsEmpty

end Threads

/-! ## The start -/

theorem Stages.queued_idle {σ : Type} (s : Stages σ) (hjobs : s.jobs = [])
    (hparsed : s.parsed = []) (tail : Nat) :
    s.queued s.reader [] tail (fun _ => none) (fun _ => false) [] = s := by
  have hparsers :
      (s.parsers.mapIdx fun i p => p.ahead
        ((none : Option Nat).bind (([] : List Job)[·]?)) false) =
      s.parsers := by
    refine List.ext_getElem? fun i => ?_
    rw [List.getElem?_mapIdx]
    simp
  rw [queued, hparsers, List.drop_nil, ← hjobs]
  cases s
  cases hparsed
  rfl

namespace Threads

variable {σ : Type} {c : Config} {source : Source} {s : Threads σ}

/-- A session starts with the two ring buffers that it has made. -/
theorem start_cases {t : Tracker} {store : σ} (h : start c t store source = .ok s) :
    ∃ jobs parsed, RingBuffer.new c.ringCapacity 1 c.parserThreads = .ok jobs ∧
      RingBuffer.new c.ringCapacity c.parserThreads 1 = .ok parsed ∧
        s = { stages := .start c t store source
              jobs := ⟨jobs, fun _ => none⟩
              parsed := ⟨parsed, fun _ => none⟩
              setup := preparations c.parserThreads } := by
  unfold start at h
  cases hjobs : (RingBuffer.new c.ringCapacity 1 c.parserThreads : Except _ (RingBuffer Job)) with
  | error e =>
      rw [hjobs] at h
      cases h
  | ok jobs =>
      rw [hjobs] at h
      cases hparsed : (RingBuffer.new c.ringCapacity c.parserThreads 1 :
        Except _ (RingBuffer Parsed)) with
      | error e =>
          rw [hparsed] at h
          cases h
      | ok parsed =>
          rw [hparsed] at h
          cases h
          exact ⟨jobs, parsed, rfl, rfl, rfl⟩

end Threads

namespace Carries

variable {σ : Type} {c : Config} {source : Source} {b : Books} {s : Threads σ}
  {log : List Handover}

/-- At the start the books are empty. -/
theorem start (hpos : 0 < c.parserThreads) {t : Tracker} {store : σ}
    (h : Threads.start c t store source = .ok s) : Carries c source {} s := by
  obtain ⟨jobs, parsed, hjobs, hparsed, rfl⟩ := Threads.start_cases h
  obtain ⟨rfl, -⟩ := RingBuffer.eq_empty_of_new hparsed
  have hshown : Books.shown {} c
      { stages := Stages.start c t store source
        jobs := ⟨jobs, fun _ => none⟩
        parsed := ⟨RingBuffer.empty c.ringCapacity c.parserThreads 1, fun _ => none⟩
        setup := preparations c.parserThreads } = Stages.start c t store source :=
    Stages.queued_idle (Stages.start c t store source) rfl rfl _
  exact
    { jobs_lined := .new hjobs
      parsed_lined := .new hparsed
      inTurn :=
        { consumers := by simp [RingBuffer.empty]
          returned := rfl
          idle := fun _ => rfl
          busy := fun hbusy => by cases hbusy }
      jobs_manned := fun n id p hp => by cases hp
      parsed_manned := fun n id p hp => by cases hp
      handing := fun hhanding => by cases hhanding
      reserving := fun hpos => absurd hpos (Nat.lt_irrefl 0)
      seeking := fun hwant => by cases hwant
      passing := fun hpassing => by cases hpassing
      collecting := fun hcollecting => absurd rfl hcollecting
      passage := ⟨0, by rw [hshown]; exact .start hpos t store source⟩
      together := fun _ left result hclosing => by cases hclosing
      took := rfl
      got := rfl
      lines := rfl
      marks := fun i => by
        rw [show (Stages.start c t store source).parsers =
          List.replicate c.parserThreads .waiting from rfl, List.getElem?_replicate]
        split <;> rfl }

/-- The books are kept for as long as the stages run. -/
theorem recorded [GraphStore σ] (hpos : 0 < c.parserThreads) {s₀ : Threads σ}
    (hco : Threads.Coordinated c s₀.begun s₀) (h : Carries c source {} s₀)
    (hrun : Threads.Recorded c source.failure s₀ log s) :
    Threads.Coordinated c s.begun s ∧ ∃ b, Carries c source b s ∧ b.log = log := by
  induction hrun with
  | none => exact ⟨hco, {}, h, rfl⟩
  | snoc stage _ hstep ih =>
      obtain ⟨hco, b, hb, rfl⟩ := ih
      obtain ⟨s₁, heq, hnext⟩ := hco.step hpos hstep
      cases heq
      exact ⟨hnext, hb.step hco hstep⟩
  | @giveUp _ _ stage _ _ hsetup hopen ih =>
      obtain ⟨hco, b, hb, hlog⟩ := ih
      obtain ⟨hnext, hsame⟩ := hco.giveUp hsetup hopen
      exact ⟨by rwa [hsame], b, hb.giveUp stage, hlog⟩

/-! ## The end -/

/-- When the engine has counted all marks, it takes nothing more. -/
theorem want_parsed_of_finished (h : Carries c source b s)
    (hfinished : s.stages.engine.finished = c.parserThreads) (id : Nat) :
    (ledger b.parsedMarks).want id = none := by
  refine Option.eq_none_iff_forall_ne_some.mpr fun k hwant => ?_
  have hid := h.parsed_lined.fits.sound.want_lt hwant
  rw [h.inTurn.consumers] at hid
  obtain rfl : id = 0 := Nat.lt_one_iff.mp hid
  have hlt := (h.collecting (by rw [hwant]; exact Option.some_ne_none k)).2
  exact Nat.ne_of_lt hlt hfinished

/-- When the engine has counted all marks, no parser takes a job any more. -/
theorem want_jobs_of_finished (h : Carries c source b s) (hpos : 0 < c.parserThreads)
    (hfinished : s.stages.engine.finished = c.parserThreads) (id : Nat) :
    (ledger b.jobMarks).want id = none := by
  obtain ⟨handed, hpassage⟩ := h.passage
  obtain ⟨-, hended, -⟩ := hpassage.drained hpos hfinished
  refine Option.eq_none_iff_forall_ne_some.mpr fun k hwant => ?_
  -- A parser that is after a job is not shown at its end.
  have hshown : (b.shown c s).parsers[id]? = _ := Stages.parsers_queued id
  rw [h.seeking hwant] at hshown
  have hend := hended _ (List.mem_of_getElem? hshown)
  cases hitem : ((ledger b.jobMarks).want id).bind (b.jobs[·]?) <;>
    rw [hitem] at hend <;> cases hend

/-- When the engine has counted all marks, the two ring buffers are empty and all parsers are at
their ends. -/
theorem emptied (h : Carries c source b s) (hpos : 0 < c.parserThreads)
    (hfinished : s.stages.engine.finished = c.parserThreads) :
    s.jobs.ring.IsEmpty ∧ s.parsed.ring.IsEmpty ∧ b.isHanding = false ∧
      (∀ p ∈ s.stages.parsers, p.isEnded = true) ∧
        ((b.log.filterMap Handover.took?).map Prod.snd).Perm b.jobs := by
  obtain ⟨handed, hpassage⟩ := h.passage
  obtain ⟨hjobs, hended, hparsed, -, -, -⟩ := hpassage.drained hpos hfinished
  have hparsed_idle := h.want_parsed_of_finished hfinished
  obtain ⟨hparsed_empty, hunclaimed, -⟩ := h.parsed_lined.spent hparsed_idle (by
    have hle : b.parsed.length ≤ b.got.length := List.drop_eq_nil_iff.mp hparsed
    rw [← h.parsed_lined.length, h.inTurn.idle (hparsed_idle 0),
      ← h.parsed_lined.length_returned]
    rwa [h.got, List.length_map] at hle)
  have hjobs_idle := h.want_jobs_of_finished hpos hfinished
  obtain ⟨hjobs_empty, hlet, hperm⟩ := h.jobs_lined.spent hjobs_idle (by
    rw [← h.jobs_lined.length]
    exact List.drop_eq_nil_iff.mp hjobs)
  refine ⟨hjobs_empty, hparsed_empty, ?_, fun p hp => ?_, ?_⟩
  · rw [Books.isHanding, hlet]
    rfl
  · obtain ⟨i, hi, rfl⟩ := List.mem_iff_getElem.mp hp
    have hshown : (b.shown c s).parsers[i]? = _ := Stages.parsers_queued i
    have hpassing : b.isPassing i = false := by
      rw [Books.isPassing, hunclaimed]
      rfl
    rw [List.getElem?_eq_getElem hi, hjobs_idle, hpassing] at hshown
    simpa using hended _ (List.mem_of_getElem? hshown)
  · rw [h.took]
    exact hperm

/-- A line has its place to itself. -/
theorem countP_seq (h : Carries c source b s) {seq number : Nat} {text : Bytes}
    (hmem : .line seq number text ∈ b.jobs) :
    b.jobs.countP (fun job => job.seq? == some seq) = 1 := by
  obtain ⟨handed, hpassage⟩ := h.passage
  rw [← List.count_filterMap, hpassage.seqs]
  refine List.count_eq_one_of_mem List.nodup_range ?_
  rw [← hpassage.seqs]
  exact List.mem_filterMap.mpr ⟨_, hmem, rfl⟩

theorem eq_line_of_seq (h : Carries c source b s) {seq number : Nat} {text : Bytes} {job : Job}
    (hmem : .line seq number text ∈ b.jobs) (hjob : job ∈ b.jobs) (hseq : job.seq? = some seq) :
    job = .line seq number text := by
  obtain ⟨n, -, -, -, hone⟩ := exists_only_getElem? (h.countP_seq hmem)
  obtain ⟨i, hi⟩ := List.getElem?_of_mem hjob
  obtain ⟨j, hj⟩ := List.getElem?_of_mem hmem
  have hij : i = j := (hone i _ hi (by simp [hseq])).trans (hone j _ hj (by simp [Job.seq?])).symm
  rw [hij] at hi
  exact Option.some.inj (hi.symm.trans hj)

section Finished

variable (h : Carries c source b s) (hpos : 0 < c.parserThreads)
  (hfinished : s.stages.engine.finished = c.parserThreads)

include h hpos hfinished

/-- All lines in line were handed on. -/
theorem filter_lines : b.jobs.filter (fun job => !job.isMark) = b.log.filterMap Handover.line? := by
  obtain ⟨-, -, hhanding, -⟩ := h.emptied hpos hfinished
  have hlines := h.lines
  rw [hhanding] at hlines
  exact hlines.trans (List.append_nil _)

theorem mem_of_handed {seq number : Nat} {text : Bytes}
    (hmem : .handed (.line seq number text) ∈ b.log) :
    .line seq number text ∈ b.jobs := by
  refine List.mem_of_mem_filter (p := fun job => !job.isMark) ?_
  rw [h.filter_lines hpos hfinished]
  exact List.mem_filterMap.mpr ⟨_, hmem, rfl⟩

/-- A line was taken once, by one parser. -/
theorem taken_once {seq number : Nat} {text : Bytes} (hmem : .line seq number text ∈ b.jobs) :
    ∃! x : Nat × Nat, b.log[x.1]? = some (.took x.2 (.line seq number text)) := by
  obtain ⟨-, -, -, -, hperm⟩ := h.emptied hpos hfinished
  have hcount : b.log.countP (fun x => x.took?.any fun y => y.2.seq? == some seq) = 1 := by
    rw [← h.countP_seq hmem, ← hperm.countP_eq, List.countP_map, countP_filterMap_any]
    rfl
  obtain ⟨n, x, hn, hx, hone⟩ := exists_only_getElem? hcount
  cases x with
  | handed | got => cases hx
  | took i job =>
      have hjob : job ∈ b.jobs := hperm.mem_iff.mp
        (List.mem_map.mpr ⟨(i, job),
          List.mem_filterMap.mpr ⟨_, List.mem_of_getElem? hn, rfl⟩, rfl⟩)
      obtain rfl := h.eq_line_of_seq hmem hjob (by simpa [Handover.took?] using hx)
      refine ⟨(n, i), hn, fun y hy => ?_⟩
      obtain ⟨m, j⟩ := y
      obtain rfl : m = n := hone m _ hy (by simp [Handover.took?, Job.seq?])
      cases hn.symm.trans hy
      rfl

/-- What a parser made of a line was got once. -/
theorem got_once {seq number : Nat} {text : Bytes} (hmem : .line seq number text ∈ b.jobs) :
    ∃! n : Nat, b.log[n]? = some (.got (.line seq (readLine number text))) := by
  obtain ⟨handed, hpassage⟩ := h.passage
  obtain ⟨-, -, -, -, -, hgot⟩ := hpassage.drained hpos hfinished
  have hcount : b.log.countP (fun x => x.got?.any (Parsed.isLine seq)) = 1 := by
    rw [← countP_filterMap_any, ← Books.got, ← hgot.countP_eq, List.countP_map,
      ← h.countP_seq hmem]
    exact List.countP_congr fun job _ => by simp [Job.isLine_parse]
  obtain ⟨n, x, hn, hx, hone⟩ := exists_only_getElem? hcount
  cases x with
  | handed | took => cases hx
  | got p =>
      have hp : p ∈ b.got := List.mem_filterMap.mpr ⟨_, List.mem_of_getElem? hn, rfl⟩
      obtain ⟨job, hjob, rfl⟩ := List.mem_map.mp (hgot.mem_iff.mpr hp)
      obtain rfl := h.eq_line_of_seq hmem hjob (by simpa [Handover.got?, Job.isLine_parse] using hx)
      exact ⟨n, hn, fun m hm => hone m _ hm (by simp [Handover.got?, Parsed.isLine])⟩

/-- A parser has taken one mark. -/
theorem finish_once {i : Nat} (hi : i < c.parserThreads) :
    ∃! n : Nat, b.log[n]? = some (.took i .finish) := by
  obtain ⟨handed, hpassage⟩ := h.passage
  obtain ⟨-, -, -, hended, -⟩ := h.emptied hpos hfinished
  have hlt : i < s.stages.parsers.length := by
    rw [← hpassage.flow.size] at hi
    exact List.length_mapIdx ▸ hi
  have hdone : s.stages.parsers[i].isDone = true := by
    have hend := hended _ (List.getElem_mem hlt)
    cases hat : s.stages.parsers[i] <;> rw [hat] at hend <;> first | rfl | cases hend
  have hcount := h.marks i
  rw [List.getElem?_eq_getElem hlt, Option.any_some, if_pos hdone] at hcount
  obtain ⟨n, x, hn, hx, hone⟩ := exists_only_getElem? hcount
  cases x with
  | handed | got => cases hx
  | took j job =>
      obtain ⟨hj, hjob⟩ := Bool.and_eq_true_iff.mp hx
      obtain rfl := beq_iff_eq.mp hj
      obtain rfl := Job.isMark_iff.mp hjob
      exact ⟨n, hn, fun m hm => hone m _ hm hx⟩

/-- The engine has come to as many lines as were handed on. -/
theorem nextSeq_eq : s.stages.engine.nextSeq = (b.log.filterMap Handover.line?).length := by
  obtain ⟨handed, hpassage⟩ := h.passage
  obtain ⟨-, -, -, -, hnext, -⟩ := hpassage.drained hpos hfinished
  have hlength := congrArg List.length hpassage.seqs
  rw [List.length_range, List.length_filterMap_eq_countP] at hlength
  rw [← h.filter_lines hpos hfinished, ← List.countP_eq_length_filter]
  refine hnext.trans (hlength.symm.trans (List.countP_congr fun job _ => ?_))
  cases job <;> simp [Job.seq?, Job.isMark]

/-- When the engine has counted all marks, nothing is left between the stages. -/
theorem cleared : Threads.Cleared c b.log s := by
  obtain ⟨handed, hpassage⟩ := h.passage
  obtain ⟨-, -, -, hearly, -⟩ := hpassage.drained hpos hfinished
  obtain ⟨hjobs, hparsed, -⟩ := h.emptied hpos hfinished
  exact
    { taken := fun _ _ _ hmem => h.taken_once hpos hfinished (h.mem_of_handed hpos hfinished hmem)
      got := fun _ _ _ hmem => h.got_once hpos hfinished (h.mem_of_handed hpos hfinished hmem)
      finish := fun _ hi => h.finish_once hpos hfinished hi
      early := hearly
      nextSeq := h.nextSeq_eq hpos hfinished
      jobs := hjobs
      parsed := hparsed }

end Finished

end Carries

namespace Threads

variable {σ : Type} {c : Config}

/-- When the engine leaves its loop it has counted all marks, and nothing is left between the
stages, whatever the number of parsers and slots, the source and the order of the steps. -/
theorem shutdown_clean [GraphStore σ] (hc : c.validate = .ok ()) (t : Tracker) (store : σ)
    (source : Source) :
    ∃ s₀, start c t store source = .ok s₀ ∧
      ∀ log s, Recorded c source.failure s₀ log s →
      (s.stages.engineAt.isPast = true → s.stages.engine.finished = c.parserThreads) ∧
        (s.stages.engine.finished = c.parserThreads → Cleared c log s) := by
  obtain ⟨hpos, -⟩ := Config.bounds_of_validate hc
  obtain ⟨s₀, hstart, hco⟩ := exists_start hc t store source
  refine ⟨s₀, hstart, fun log s hrun => ?_⟩
  obtain ⟨-, b, hb, rfl⟩ := (Carries.start hpos hstart).recorded hpos hco hrun
  obtain ⟨handed, hpassage⟩ := hb.passage
  exact ⟨hpassage.flow.past, hb.cleared hpos⟩

/-- A refused line and a source that fails behind it, with two parsers: the engine leaves its loop,
the line has been handed over, and nothing is left. -/
theorem shutdown_clean_refused_line :
    Config.validate { mode := .advanced 2 2, skipInvalid := false } = .ok () ∧
      ∃ (s₀ s : Threads Graph.Memory) (log : List Handover),
        start { mode := .advanced 2 2, skipInvalid := false } {} {} ⟨[120, 10], some "gone"⟩ =
          .ok s₀ ∧
          Recorded { mode := .advanced 2 2, skipInvalid := false } (some "gone") s₀ log s ∧
            s.stages.engineAt.isPast = true ∧ s.stages.engine.nextSeq = 1 ∧
              (log.filterMap Handover.line?).length = 1 ∧
              Cleared { mode := .advanced 2 2, skipInvalid := false } log s := by
  obtain ⟨s₀, hstart, hclean⟩ :=
    shutdown_clean (c := { mode := .advanced 2 2, skipInvalid := false }) rfl {}
      ({} : Graph.Memory) ⟨[120, 10], some "gone"⟩
  let schedule := (List.replicate 100 (threadStages 2 ++ [Stage.keeper])).flatten
  let hasLeft (s : Threads Graph.Memory) : Bool :=
    s.stages.engineAt.isPast && s.stages.engine.nextSeq == 1
  have hleft : (s₀.follow { mode := .advanced 2 2, skipInvalid := false }
      (some "gone") schedule).toOption.any
      hasLeft = true := by
    have hrun : (start { mode := .advanced 2 2, skipInvalid := false } {} ({} : Graph.Memory)
        ⟨[120, 10], some "gone"⟩).toOption.any (fun s =>
          (s.follow { mode := .advanced 2 2, skipInvalid := false }
            (some "gone") schedule).toOption.any
            hasLeft) = true := by
      decide +kernel
    rw [hstart] at hrun
    exact hrun
  cases hfollow : s₀.follow { mode := .advanced 2 2, skipInvalid := false }
    (some "gone") schedule with
  | error e =>
      rw [hfollow] at hleft
      cases hleft
  | ok s =>
      rw [hfollow] at hleft
      obtain ⟨hpast, hnext⟩ := Bool.and_eq_true_iff.mp hleft
      obtain ⟨log, hrecorded⟩ := (steps_follow hfollow).exists_recorded
      obtain ⟨hfinished, hcleared⟩ := hclean log s hrecorded
      have hall := hcleared (hfinished hpast)
      have hone : s.stages.engine.nextSeq = 1 := beq_iff_eq.mp hnext
      exact ⟨rfl, s₀, s, log, hstart, hrecorded, hpast, hone,
        hall.nextSeq.symm.trans hone, hall⟩

end Threads

end Lineage.Session

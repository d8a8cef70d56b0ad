import Lineage.Proofs.Session.Progress

/-!
# When the engine has fallen

An engine that has fallen takes nothing, so whatever is handed on stays in front of it, and the
store sees no batch (`Heaped`).  The other stages come to their ends if there is room for all that
is handed on: the lines of the journal, and a mark for every parser.  Otherwise they fill the room
and wait for ever (`Heaped.allEnded_iff`).
-/

namespace Lineage.Session

open Lineage.Audit (Source)
open Lineage.Graph (GraphStore)

/-- The number of lines and marks that the reader still has to hand on, with `threads` marks in
all. -/
def ReaderPoint.pending (threads : Nat) : ReaderPoint → Nat
  | .reading lines line _ => (numberFrom line lines).length + threads
  | .handing _ lines line _ => (numberFrom line lines).length + 1 + threads
  | .failing _ => threads
  | .closing left _ => left
  | .ended _ => 0

/-- Whether the reader has no line left to read. -/
def ReaderPoint.isClosing : ReaderPoint → Bool
  | .closing .. | .ended _ => true
  | _ => false

namespace Stages

variable {σ : Type}

/-- Behind an engine that has fallen nothing is taken, and nothing comes to the store. -/
structure Heaped (c : Config) (source : Source) (store : σ) (s : Stages σ) : Prop where
  fallen : s.engineAt = .fallen
  finished : s.engine.finished = 0
  /-- Every line and every mark is to come or on its way. -/
  total : s.onTheWay.length + s.reader.pending c.parserThreads =
    source.numberedLines.length + c.parserThreads
  parsed_le : s.parsed.length ≤ c.ringCapacity
  /-- Only the reader raises the flag, behind its last line. -/
  flag : s.flag = true → s.reader.isClosing = true
  keeper : s.keeper = .taking ∨ s.keeper = .ended none
  batches : s.batches = []
  store : s.store = store
  offered : s.offered = []

namespace Heaped

variable {c : Config} {t : Tracker} {source : Source} {store : σ} {handed : Nat} {s s' : Stages σ}
variable {failure : Option String}

theorem start (hfits : c.batchFits = false) (t : Tracker) (store : σ) (source : Source) :
    Heaped c source store (Stages.start c t store source) where
  fallen := (start_fallen_iff c t store source).mpr hfits
  finished := rfl
  total := by
    rw [Flow.onTheWay_start]
    exact Nat.zero_add _
  parsed_le := Nat.zero_le _
  flag hup := by cases hup
  keeper := .inl rfl
  batches := rfl
  store := rfl
  offered := rfl

/-! ## Steps -/

/-- The reader goes on and hands on what is not to come any more. -/
theorem setReader (h : Heaped c source store s) {point : ReaderPoint} (jobs : List Job)
    (htotal : jobs.length + point.pending c.parserThreads = s.reader.pending c.parserThreads)
    {flag : Bool} (hflag : flag = true → point.isClosing = true) :
    Heaped c source store { s with jobs := s.jobs ++ jobs, reader := point, flag := flag } :=
  { h with
    total := by
      have hway := (s.onTheWay_append jobs point).length_eq
      rw [List.length_append, List.length_map] at hway
      have hall := h.total
      simp only [onTheWay] at hway hall ⊢
      omega
    flag := hflag }

theorem reader_move (h : Heaped c source store s) (hmove : ReaderMove c failure s s') :
    Heaped c source store s' := by
  -- A reader that still reads has not raised the flag, and nobody else has.
  have hdown : s.reader.isClosing = false → s.flag = true → False := by
    intro hreading hup
    rw [h.flag hup] at hreading
    cases hreading
  have hstay : ∀ {point : ReaderPoint} {flag : Bool},
      point.pending c.parserThreads = s.reader.pending c.parserThreads →
        (flag = true → point.isClosing = true) →
          Heaped c source store { s with reader := point, flag := flag } := by
    intro point flag hpending hflag
    have hnext := h.setReader [] ((Nat.zero_add _).trans hpending) hflag
    rwa [List.append_nil] at hnext
  cases hmove with
  | stopEarly hat hup => exact (hdown (by rw [hat]; rfl) hup).elim
  | reachEnd hat => exact hstay (by rw [hat]; exact (Nat.zero_add _).symm) fun _ => rfl
  | fail hat =>
      exact hstay (by rw [hat]; exact (Nat.zero_add _).symm)
        fun hup => (hdown (by rw [hat]; rfl) hup).elim
  | passBlank hat _ hblank =>
      refine hstay ?_ fun hup => (hdown (by rw [hat]; rfl) hup).elim
      rw [hat, ReaderPoint.pending, ReaderPoint.pending, numberFrom_blank hblank]
  | read hat _ hblank =>
      refine hstay ?_ fun hup => (hdown (by rw [hat]; rfl) hup).elim
      rw [hat, ReaderPoint.pending, ReaderPoint.pending, numberFrom_cons hblank, List.length_cons]
  | hand hat =>
      refine h.setReader _ ?_ fun hup => (hdown (by rw [hat]; rfl) hup).elim
      simp only [hat, ReaderPoint.pending, List.length_singleton]
      omega
  | raise hat => exact hstay (by rw [hat]; rfl) fun _ => rfl
  | closeAll hat =>
      refine h.setReader _ ?_ fun _ => rfl
      rw [hat, List.length_replicate]
      rfl
  | closeOne hat =>
      refine h.setReader _ ?_ fun _ => rfl
      simp only [hat, ReaderPoint.pending, List.length_singleton]
      omega
  | finish hat => exact hstay (by rw [hat]; rfl) fun _ => rfl

theorem parser_move (h : Heaped c source store s) (hmove : ParserMove c s s') :
    Heaped c source store s' := by
  cases hmove with
  | take hparsers hjobs =>
      exact
        { h with
          total := by
            rw [(onTheWay_take s hparsers hjobs).length_eq]
            exact h.total }
  | pass hparsers hroom =>
      exact
        { h with
          total := by
            rw [(onTheWay_pass s hparsers).length_eq]
            exact h.total
          parsed_le := by
            rw [List.length_append, List.length_singleton]
            exact hroom }

theorem keeper_move [GraphStore σ] (h : Heaped c source store s) (hmove : KeeperMove s s') :
    Heaped c source store s' := by
  have hnot : ∀ {point : KeeperPoint}, s.keeper = point →
      point ≠ .taking → point ≠ .ended none → False := by
    rintro point rfl htaking hended
    exact h.keeper.elim htaking hended
  cases hmove with
  | take _ hbatches => cases h.batches.symm.trans hbatches
  | finish => exact { h with keeper := .inr rfl }
  | accept hat => exact (hnot hat nofun nofun).elim
  | refuse hat => exact (hnot hat nofun nofun).elim
  | raise hat => exact (hnot hat nofun nofun).elim
  | close hat => exact (hnot hat nofun nofun).elim

theorem move [GraphStore σ] (h : Heaped c source store s) (hmove : Move c failure s s') :
    Heaped c source store s' := by
  cases hmove with
  | reader hreader => exact h.reader_move hreader
  | parser hparser => exact h.parser_move hparser
  | engine hengine =>
      have hover := hengine.isOver_eq_false
      rw [h.fallen] at hover
      cases hover
  | keeper hkeeper => exact h.keeper_move hkeeper

/-- If there may be no room for a batch, this is so whatever steps were taken. -/
theorem steps [GraphStore σ] (hfits : c.batchFits = false)
    (hsteps : Steps c failure (Stages.start c t store source) s) : Heaped c source store s := by
  induction hsteps with
  | refl => exact .start hfits t store source
  | snoc stage _ hstep ih => exact ih.move (step_move hstep)

/-! ## The end -/

/-- When all parsers are at their ends, everything is in front of the engine. -/
theorem onTheWay_eq_parsed (h : Heaped c source store s) (hflow : Flow c source handed s)
    (hthreads : 0 < c.parserThreads) (hall : ∀ p ∈ s.parsers, p.isEnded = true) :
    s.jobs = [] ∧ s.onTheWay = s.parsed := by
  have hheld := ParserPoint.filterMap_held_eq_nil fun p hp => .inl (hall p hp)
  have hmarks := hflow.marks
  have hended := hflow.ended
  rw [List.countP_eq_length.mpr hall, hflow.size, h.finished] at hended
  rw [onTheWay, hheld, List.nil_append, List.countP_append, h.finished] at hmarks
  have hnone : (s.jobs.map Job.parse).countP Parsed.isMark = 0 := by omega
  rw [List.countP_eq_zero] at hnone
  have hjobs : s.jobs = [] := by
    refine hflow.jobs_eq_nil hthreads hall fun job hjob => ?_
    have hnot := hnone job.parse (List.mem_map_of_mem hjob)
    rwa [Job.isMark_parse, Bool.not_eq_true] at hnot
  exact ⟨hjobs, by rw [onTheWay, hjobs, hheld]; rfl⟩

/-- A parser that holds something has handed it on to nobody. -/
theorem length_parsed_lt {p : ParserPoint} (hp : p ∈ s.parsers) (hholding : p.isHolding = true) :
    s.parsed.length < s.onTheWay.length := by
  have hpos : 0 < (s.parsers.filterMap ParserPoint.held).length := by
    cases p with
    | holding x => exact List.length_pos_of_mem (List.mem_filterMap.mpr ⟨_, hp, rfl⟩)
    | _ => cases hholding
  simp only [onTheWay, List.length_append]
  omega

/-- When nobody can take a step, all are at their ends exactly if there is room for everything in
front of the engine. -/
theorem allEnded_iff [GraphStore σ] (h : Heaped c source store s) (hflow : Flow c source handed s)
    (hthreads : 0 < c.parserThreads) (hcapacity : 0 < c.ringCapacity)
    (hstuck : ∀ stage, s.step c source.failure stage = none) :
    s.AllEnded ↔ source.numberedLines.length + c.parserThreads ≤ c.ringCapacity := by
  have htotal := h.total
  constructor
  · rintro ⟨⟨lines, hreader⟩, hall, -, -⟩
    rw [hreader, (h.onTheWay_eq_parsed hflow hthreads hall).2] at htotal
    exact Nat.le_trans (Nat.le_of_eq htotal.symm) h.parsed_le
  · intro hroom
    have hparsers : ∀ p ∈ s.parsers, p.isEnded = true ∨ p = .waiting ∧ s.jobs = [] := by
      intro p hp
      rcases parser_waits (fun i => hstuck (.parser i)) hp with
        hended | hwaits | ⟨hholding, hfull⟩
      · exact .inl hended
      · exact .inr hwaits
      · have hlt := length_parsed_lt hp hholding
        omega
    have hjobs : s.jobs = [] := by
      refine Classical.byContradiction fun hsome => hsome ?_
      refine (h.onTheWay_eq_parsed hflow hthreads fun p hp => ?_).1
      exact (hparsers p hp).resolve_right fun hwaits => hsome hwaits.2
    have hmarks := hflow.marks
    have hended := hflow.ended
    obtain ⟨lines, hreader⟩ : ∃ lines, s.reader = .ended lines := by
      refine (reader_waits (hstuck .reader) hthreads hcapacity (by omega)).resolve_right ?_
      exact fun hwaits => hwaits.1 hjobs
    -- All marks were handed on, and there is nowhere else for them to be.
    have hheld := ParserPoint.filterMap_held_eq_nil fun p hp => (hparsers p hp).imp_right And.left
    rw [hreader, onTheWay, hjobs, hheld] at hmarks
    simp only [ReaderPoint.left, List.map_nil, List.nil_append, Nat.zero_add] at hmarks
    have hall : s.parsers.countP ParserPoint.isEnded = s.parsers.length :=
      hended.trans (hmarks.trans hflow.size.symm)
    have hover : s.engineAt.isOver = true := EnginePoint.isOver_iff.mpr (.inr h.fallen)
    exact ⟨⟨lines, hreader⟩, List.countP_eq_length.mp hall, hover,
      keeper_ended_of_stuck hstuck hover⟩

end Heaped

end Stages

end Lineage.Session

import Lineage.Proofs.Session.Passage
import Lineage.Session.Threads

/-!
# Ring buffers seen as queues

A ring buffer is a queue that is ahead of the calls on it.  An item is in the queue when a producer
has claimed a position for it, and it has left the queue when a consumer has claimed that position
too.  `Stages.queued` shows the stages as they stand then: what a parser will bring back it holds
already, and what it is handing on it has handed on.

With every step of a call the stages that are shown take a step of a stage with a queue or stay
where they are, so what has passed between them (`Passage`) is kept.
-/

namespace Lineage.Session

open Lineage.Audit (LineError Source)
open Lineage.Graph (GraphStore)

/-- Where a parser stands when it has the job that it will bring, and has handed on what it is
handing on. -/
def ParserPoint.ahead (brings : Option Job) (passed : Bool) : ParserPoint → ParserPoint
  | .waiting => brings.elim .waiting fun job => .holding job.parse
  | .holding p => if passed then p.after else .holding p
  | .ended => .ended

@[simp] theorem ParserPoint.ahead_none_false (p : ParserPoint) : p.ahead none false = p := by
  cases p <;> rfl

theorem Parsed.ahead_after (p : Parsed) (passed : Bool) : p.after.ahead none passed = p.after := by
  cases p <;> rfl

namespace Stages

variable {σ : Type} {s u : Stages σ} {reader reader' : ReaderPoint}
  {items : List Job} {tail : Nat}
  {want want' : Nat → Option Nat} {passed passed' : Nat → Bool} {parsed : List Parsed}

/-- The stages with the items behind `tail` in the queue of jobs, and with parsers that are ahead of
their calls. -/
def queued (s : Stages σ) (reader : ReaderPoint) (items : List Job) (tail : Nat)
    (want : Nat → Option Nat) (passed : Nat → Bool) (parsed : List Parsed) : Stages σ :=
  { s with
    reader := reader
    jobs := items.drop tail
    parsers := s.parsers.mapIdx fun i p => p.ahead ((want i).bind (items[·]?)) (passed i)
    parsed := parsed }

theorem parsers_queued (i : Nat) :
    (s.queued reader items tail want passed parsed).parsers[i]? =
      s.parsers[i]?.map fun p => p.ahead ((want i).bind (items[·]?)) (passed i) :=
  List.getElem?_mapIdx ..

/-- One parser is ahead of its calls in another way, and the others are where they were. -/
theorem parsers_queued_set {items' : List Job} {i : Nat} {p q : ParserPoint}
    (hi : s.parsers[i]? = some p) (hself : p.ahead ((want' i).bind (items'[·]?)) (passed' i) = q)
    (hothers : ∀ j, j ≠ i → (want' j).bind (items'[·]?) = (want j).bind (items[·]?) ∧
      passed' j = passed j) :
    (s.parsers.mapIdx fun j p => p.ahead ((want' j).bind (items'[·]?)) (passed' j)) =
      (s.parsers.mapIdx fun j p => p.ahead ((want j).bind (items[·]?)) (passed j)).set i q := by
  have hlt := (List.getElem?_eq_some_iff.mp hi).1
  refine List.ext_getElem? fun j => ?_
  rw [List.getElem?_mapIdx]
  by_cases hj : j = i
  · subst hj
    rw [List.getElem?_set_self (by simpa using hlt), hi, Option.map_some, hself]
  · rw [List.getElem?_set_ne (Ne.symm hj), List.getElem?_mapIdx,
      (hothers j hj).1, (hothers j hj).2]

/-- What a parser does that was shown already is not noticed. -/
theorem queued_set {i : Nat} {p q : ParserPoint} (hi : s.parsers[i]? = some p)
    (hself : q.ahead ((want' i).bind (items[·]?)) (passed' i) =
      p.ahead ((want i).bind (items[·]?)) (passed i))
    (hothers : ∀ j, j ≠ i → want' j = want j ∧ passed' j = passed j) :
    ({ s with parsers := s.parsers.set i q } : Stages σ).queued reader items tail
      want' passed' parsed =
      s.queued reader items tail want passed parsed := by
  have hlt := (List.getElem?_eq_some_iff.mp hi).1
  have hparsers : ((s.parsers.set i q).mapIdx
      fun j p => p.ahead ((want' j).bind (items[·]?)) (passed' j)) =
      s.parsers.mapIdx fun j p => p.ahead ((want j).bind (items[·]?)) (passed j) := by
    refine List.ext_getElem? fun j => ?_
    rw [List.getElem?_mapIdx, List.getElem?_mapIdx]
    by_cases hj : j = i
    · subst hj
      rw [List.getElem?_set_self hlt, hi, Option.map_some, Option.map_some, hself]
    · rw [List.getElem?_set_ne (Ne.symm hj), (hothers j hj).1, (hothers j hj).2]
  simp only [queued, hparsers]

/-- The consumers that are after positions below `tail` are parsers that wait. -/
structure Sought (items : List Job) (tail : Nat) (want : Nat → Option Nat) (s : Stages σ) :
    Prop where
  lt : ∀ {i k}, want i = some k → k < tail
  unique : ∀ {i j k}, want i = some k → want j = some k → i = j
  waiting : ∀ {i k}, want i = some k → s.parsers[i]? = some .waiting
  /-- Every position that no producer has claimed yet is sought. -/
  ahead : ∀ {k}, items.length ≤ k → k < tail → ∃ i, want i = some k

/-! ## Steps of the engine and the keeper -/

theorem proceed_queued (s : Stages σ) :
    (s.queued reader items tail want passed parsed).proceed =
      s.proceed.queued reader items tail want passed parsed := by
  unfold proceed
  simp only [queued]
  split <;> rfl

/-- The engine takes what it takes from the front of the queue. -/
theorem EngineMove.queued {c : Config} (h : EngineMove c s u) (rest : List Parsed) :
    EngineMove c (s.queued reader items tail want passed (s.parsed ++ rest))
      (u.queued reader items tail want passed (u.parsed ++ rest)) := by
  have hproceed : ∀ (t : Stages σ) {v : Stages σ},
      (EngineMove c v (t.queued reader items tail want passed (t.parsed ++ rest)).proceed) →
        EngineMove c v (t.proceed.queued reader items tail want passed
          (t.proceed.parsed ++ rest)) := by
    intro t v hv
    rwa [t.proceed_frame.1, ← proceed_queued]
  cases h with
  | @takeLine seq result parsed hat hlt hparsed =>
      refine hproceed _ (.takeLine hat hlt ?_)
      simp only [Stages.queued, hparsed, List.cons_append]
  | takeMark hat hlt hparsed =>
      refine .takeMark hat hlt ?_
      simp only [Stages.queued, hparsed, List.cons_append]
  | drop hat hflag => exact hproceed _ (.drop hat hflag)
  | goOn hat hshort => exact hproceed _ (.goOn hat hshort)
  | raise hat => exact hproceed _ (.raise hat)
  | raiseCutOff hat => exact hproceed _ (.raiseCutOff hat)
  | finish hat hall hops => exact .finish hat hall hops
  | leave hat hall hops => exact .leave hat hall hops
  | use hat hflag => exact .use hat hflag
  | skip hat hflag hskip => exact .skip hat hflag hskip
  | condemn hat hflag hskip => exact .condemn hat hflag hskip
  | cut hat hfull => exact .cut hat hfull
  | send hat hopen hroom => exact .send hat hopen hroom
  | cutOff hat hclosed => exact .cutOff hat hclosed
  | dropLast hat hflag => exact .dropLast hat hflag
  | takeLast hat hflag => exact .takeLast hat hflag
  | sendLast hat hopen hroom => exact .sendLast hat hopen hroom
  | cutOffLast hat hclosed => exact .cutOffLast hat hclosed
  | raiseLast hat => exact .raiseLast hat

/-- While the engine counts marks, it takes what it is given. -/
theorem EngineMove.parsed_eq_nil {c : Config} {p : Parsed} (h : EngineMove c s u)
    (hparsed : s.parsed = [p]) (hat : s.engineAt = .taking)
    (hlt : s.engine.finished < c.parserThreads) : u.parsed = [] := by
  cases h with
  | takeLine _ _ hline =>
      rw [hparsed] at hline
      cases hline
      exact (proceed_frame _).1
  | takeMark _ _ hmark =>
      rw [hparsed] at hmark
      cases hmark
      rfl
  | finish _ hall | leave _ hall => exact absurd hlt (Nat.not_lt_of_le hall)
  | drop hnot | goOn hnot | raise hnot | raiseCutOff hnot | use hnot | skip hnot
  | condemn hnot | cut hnot
  | send hnot | cutOff hnot | dropLast hnot | takeLast hnot | sendLast hnot
  | cutOffLast hnot | raiseLast hnot =>
      rw [hat] at hnot
      cases hnot

theorem KeeperMove.queued [GraphStore σ] (h : KeeperMove s u) :
    KeeperMove (s.queued reader items tail want passed parsed)
      (u.queued reader items tail want passed parsed) := by
  cases h with
  | take hat hbatches => exact .take hat hbatches
  | finish hat hbatches hended => exact .finish hat hbatches hended
  | accept hat hexecute => exact .accept hat hexecute
  | refuse hat hexecute => exact .refuse hat hexecute
  | raise hat => exact .raise hat
  | close hat => exact .close hat

/-- The reader goes on without handing on anything. -/
theorem ReaderMove.queued {c : Config} {failure : Option String} (h : ReaderMove c failure s u)
    (hnone : Threads.readerCalls c s.reader = []) :
    ReaderMove c failure (s.queued s.reader items tail want passed parsed)
      (u.queued u.reader items tail want passed parsed) := by
  cases h with
  | stopEarly hat hflag => exact .stopEarly hat hflag
  | reachEnd hat hflag hfailure => exact .reachEnd hat hflag hfailure
  | fail hat hflag hfailure => exact .fail hat hflag hfailure
  | passBlank hat hflag hblank => exact .passBlank hat hflag hblank
  | read hat hflag hblank => exact .read hat hflag hblank
  | raise hat => exact .raise hat
  | finish hat => exact .finish hat
  | hand hat =>
      rw [hat] at hnone
      cases hnone
  | closeAll hat hroom =>
      rw [hat, Threads.readerCalls, if_pos hroom] at hnone
      cases hnone
  | closeOne hat hmany =>
      rw [hat, Threads.readerCalls, if_neg (Nat.not_le_of_lt hmany)] at hnone
      cases hnone

/-! ## What passes through the queues -/

namespace Passage

variable {c : Config} {source : Source} {handed handed' : Nat} {got : List Parsed}

/-- The reader claims a position for a job.  If a parser is waiting for it, it has it at once. -/
theorem lineUp {job : Job}
    (hhand : ∀ t : Stages σ, t.reader = reader → Passage c source handed items got t →
      Passage c source handed' (items ++ [job]) got
        { t with jobs := t.jobs ++ [job], reader := reader' })
    (hs : s.Sought items tail want)
    (h : Passage c source handed items got (s.queued reader items tail want passed parsed)) :
    Passage c source handed' (items ++ [job]) got
      (s.queued reader' (items ++ [job]) tail want passed parsed) := by
  have hhanded := hhand _ rfl h
  -- Nobody but a parser that is after the new position notices.
  have hsame : ∀ j, want j ≠ some items.length →
      (want j).bind ((items ++ [job])[·]?) = (want j).bind (items[·]?) := by
    intro j hj
    cases hwant : want j with
    | none => rfl
    | some k =>
        have hk : k ≠ items.length := fun heq => hj (heq ▸ hwant)
        rcases Nat.lt_or_gt_of_ne hk with hlt | hgt
        · exact List.getElem?_append_left hlt
        · simp only [Option.bind_some]
          rw [List.getElem?_eq_none (by simp; omega), List.getElem?_eq_none (Nat.le_of_lt hgt)]
  by_cases htail : items.length < tail
  · obtain ⟨i, hi⟩ := hs.ahead (Nat.le_refl _) htail
    have hwaiting := hs.waiting hi
    have hold : items.drop tail = [] := List.drop_eq_nil_of_le (Nat.le_of_lt htail)
    have hnew : (items ++ [job]).drop tail = [] := List.drop_eq_nil_of_le (by simp; omega)
    have hfront : (s.queued reader items tail want passed parsed).parsers[i]? = some .waiting := by
      rw [parsers_queued, hwaiting, hi]
      simp [ParserPoint.ahead]
    have hparsers :
        (s.parsers.mapIdx fun j p => p.ahead ((want j).bind ((items ++ [job])[·]?)) (passed j)) =
        (s.queued reader items tail want passed parsed).parsers.set i (.holding job.parse) :=
      parsers_queued_set hwaiting (by rw [hi]; simp [ParserPoint.ahead])
        fun j hj => ⟨hsame j fun heq => hj (hs.unique heq hi), rfl⟩
    rw [queued, hparsers, hnew]
    exact hhanded.take hfront (by simp [queued, hold])
  · have hdrop : (items ++ [job]).drop tail = items.drop tail ++ [job] :=
      List.drop_append_of_le_length (Nat.le_of_not_lt htail)
    have hparsers :
        (s.parsers.mapIdx fun j p => p.ahead ((want j).bind ((items ++ [job])[·]?)) (passed j)) =
        s.parsers.mapIdx fun j p => p.ahead ((want j).bind (items[·]?)) (passed j) := by
      congr 1
      funext j p
      rw [hsame j fun heq => htail (hs.lt heq)]
    rw [queued, hparsers, hdrop]
    exact hhanded

/-- The reader claims positions for some marks of the end. -/
theorem lineUpMarks {n left : Nat} {result : Except LineError Nat} (hs : s.Sought items tail want)
    (h : Passage c source handed items got
      (s.queued (.closing (left + n) result) items tail want passed parsed)) :
    Passage c source handed (items ++ List.replicate n .finish) got
      (s.queued (.closing left result) (items ++ List.replicate n .finish) tail want
        passed parsed) := by
  induction n generalizing items with
  | zero => simpa using h
  | succ n ih =>
      have hone : Passage c source handed (items ++ [.finish]) got
          (s.queued (.closing (left + n) result) (items ++ [.finish]) tail want passed parsed) :=
        h.lineUp (fun t ht hpassage => hpassage.handMark ht) hs
      have hs' : s.Sought (items ++ [.finish]) tail want :=
        { hs with ahead := fun hk => hs.ahead (by simp only [List.length_append] at hk; omega) }
      have hmore := ih hs' hone
      rwa [List.append_assoc, List.singleton_append, ← List.replicate_succ] at hmore

/-- A parser claims a position.  If there is an item for it, it has it at once. -/
theorem seek {i : Nat} (hi : s.parsers[i]? = some .waiting) (hnone : want i = none)
    (hself : want' i = some tail) (hothers : ∀ j, j ≠ i → want' j = want j)
    (h : Passage c source handed items got (s.queued reader items tail want passed parsed)) :
    Passage c source handed items got (s.queued reader items (tail + 1) want' passed parsed) := by
  have hfront : (s.queued reader items tail want passed parsed).parsers[i]? = some .waiting := by
    rw [parsers_queued, hi, hnone]
    rfl
  have hparsers : (s.parsers.mapIdx fun j p => p.ahead ((want' j).bind (items[·]?)) (passed j)) =
      (s.queued reader items tail want passed parsed).parsers.set i
        (ParserPoint.waiting.ahead (items[tail]?) (passed i)) :=
    parsers_queued_set hi (by rw [hself, Option.bind_some])
      fun j hj => ⟨by rw [hothers j hj], rfl⟩
  rw [queued, hparsers]
  cases hitem : items[tail]? with
  | none =>
      have hle : items.length ≤ tail := List.getElem?_eq_none_iff.mp hitem
      have hsame : items.drop (tail + 1) = items.drop tail := by
        rw [List.drop_eq_nil_of_le hle, List.drop_eq_nil_of_le (Nat.le_succ_of_le hle)]
      have hstays : (s.queued reader items tail want passed parsed).parsers.set i .waiting =
          (s.queued reader items tail want passed parsed).parsers := by
        obtain ⟨hlt, heq⟩ := List.getElem?_eq_some_iff.mp hfront
        rw [← heq]
        exact List.set_getElem_self hlt
      rw [hsame]
      exact hstays.symm ▸ h
  | some job =>
      obtain ⟨hlt, rfl⟩ := List.getElem?_eq_some_iff.mp hitem
      exact h.take hfront (List.drop_eq_getElem_cons hlt)

/-- A parser claims a position for what it holds. -/
theorem offer {i : Nat} {p : Parsed} (hi : s.parsers[i]? = some (.holding p))
    (hnot : passed i = false) (hself : passed' i = true)
    (hothers : ∀ j, j ≠ i → passed' j = passed j)
    (h : Passage c source handed items got (s.queued reader items tail want passed parsed)) :
    Passage c source handed items got
      (s.queued reader items tail want passed' (parsed ++ [p])) := by
  have hholding : (s.queued reader items tail want passed parsed).parsers[i]? =
      some (.holding p) := by
    rw [parsers_queued, hi, hnot]
    rfl
  have hparsers : (s.parsers.mapIdx fun j p => p.ahead ((want j).bind (items[·]?)) (passed' j)) =
      (s.queued reader items tail want passed parsed).parsers.set i p.after :=
    parsers_queued_set hi (by rw [hself]; rfl) fun j hj => ⟨rfl, hothers j hj⟩
  rw [queued, hparsers]
  exact h.pass hholding

/-- The engine goes on with what it has taken. -/
theorem collect {taken rest : List Parsed}
    (hmove : EngineMove c { s with jobs := [], parsed := taken } u) (hall : u.parsed = [])
    (h : Passage c source handed items got
      (s.queued reader items tail want passed (taken ++ rest))) :
    Passage c source handed items (got ++ taken) (u.queued reader items tail want passed rest) := by
  have hqueued : EngineMove c (s.queued reader items tail want passed (taken ++ rest))
      (u.queued reader items tail want passed (u.parsed ++ rest)) := hmove.queued rest
  rw [hall] at hqueued
  obtain ⟨more, hmore, hnext⟩ := h.engine_move hqueued
  obtain rfl : taken = more := List.append_cancel_right hmore
  exact hnext

end Passage

end Stages

end Lineage.Session

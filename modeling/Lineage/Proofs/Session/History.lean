import Mathlib.Data.List.Induction
import Lineage.Proofs.Graph.MemoryStore
import Lineage.Proofs.Session.Completion
import Lineage.Proofs.Tracker.Numbering
import Lineage.Session.Basic

/-!
# Histories of calls

An `Exchange` is a call of a session with what came of it.  `Session.Exchanges` says what one call
can lead to: a start and a stop to what `Session.start` and `Session.stop` do, and an ingest to
whatever its stages come to, in any order of their steps.  If the journal can be read to its end,
that is what `Session.ingest` does (`Exchanges.ingest_eq`).  An ingest whose stages cannot begin, or
do not come to their ends, is no call of this kind, and `Session.tryIngest` says so of it
(`tryIngest_cases`).  A `Session.History` is some calls one after the other.

What an ingest can do is said once, for any store: the operations it commits come first among those
of a run of the tracker, and if the session goes on, they are all of them (`Exchanges.exists_run`).
-/

namespace Lineage

open Lineage.Audit (Event LineError Source)
open Lineage.Graph (GraphStore Memory MemoryStore Op StoreError)
open Lineage.Json (Bytes)

namespace Session

/-! ## Digests and their batches -/

/-- A digest is what the tracker makes of some events. -/
theorem exists_run_eq_digest (skip : Bool) (t : Tracker) (l : List (Nat × Bytes)) :
    ∃ es, t.run es = ((digest skip t l).tracker, (digest skip t l).ops) := by
  induction l generalizing t with
  | nil => exact ⟨[], rfl⟩
  | cons x l ih =>
      obtain ⟨line, text⟩ := x
      cases hread : Audit.readLine line text with
      | ok events =>
          obtain ⟨es, hes⟩ := ih (t.run events).1
          refine ⟨events ++ es, ?_⟩
          rw [digest_cons_ok hread, Tracker.run_append, hes]
          rfl
      | error e =>
          cases skip with
          | true =>
              obtain ⟨es, hes⟩ := ih t
              exact ⟨es, by rw [digest_cons_skip hread]; exact hes⟩
          | false => exact ⟨[], by rw [digest_cons_fatal hread]; rfl⟩

/-- The batches of a digest hold its operations, but for what is left over. -/
theorem flatten_batches_isPrefix (d : Digest) (size : Nat) (complete : Bool) :
    (d.batches size complete).flatten <+: d.ops := by
  have hops := flatten_cut size d.ops
  simp only [Digest.batches]
  split
  · refine ⟨[], ?_⟩
    rw [List.append_nil, List.flatten_append, List.flatten_singleton, hops]
  · exact ⟨_, hops⟩

theorem flatten_batches {d : Digest} (hfatal : d.fatal = none) (size : Nat) :
    (d.batches size true).flatten = d.ops := by
  have hops := flatten_cut size d.ops
  cases hrest : (cut size d.ops).2 with
  | nil =>
      rw [batches_eq_full (.inr (.inr hrest))]
      rwa [hrest, List.append_nil] at hops
  | cons op ops =>
      rw [batches_eq_snoc hfatal (by rw [hrest]; exact List.cons_ne_nil _ _), List.flatten_append,
        List.flatten_singleton]
      exact hops

section Offer

variable {σ : Type} [GraphStore σ]

theorem accepted_isPrefix (s : σ) (l : List (List Op)) : (offer s l).accepted <+: l := by
  induction l generalizing s with
  | nil => exact List.prefix_refl _
  | cons batch l ih =>
      cases hx : GraphStore.execute s batch with
      | mk answer s' =>
          cases answer with
          | error e =>
              rw [offer_cons_error hx]
              exact List.nil_prefix
          | ok _ =>
              rw [offer_cons_ok hx]
              exact List.cons_prefix_cons.mpr ⟨rfl, ih s'⟩

/-- An ingest that reports has digested its whole journal and committed all of it. -/
theorem ingestJournal_ok {c : Config} {t : Tracker} {s : σ} {source : Source} {report : Report}
    (h : (ingestJournal c t s source).result = .ok report) :
    (offer s (referenceBatches c t source)).refusal = none ∧
      (digestSource c.skipInvalid t source).fatal = none ∧
        (ingestJournal c t s source).tracker = (digestSource c.skipInvalid t source).tracker := by
  unfold referenceBatches
  unfold ingestJournal at h ⊢
  simp only at h ⊢
  split at h
  · cases h
  · rename_i hrefusal
    split at h
    · cases h
    · split at h
      · cases h
      · rename_i hfatal
        exact ⟨hrefusal, hfatal, rfl⟩

end Offer

/-! ## Calls -/

/-- A call of a session and what came of it.  For an ingest these are also the batches that the
store was offered, and those of them that it accepted. -/
inductive Exchange where
  /-- A start. -/
  | start (answer : Except SessionError Unit)
  /-- An ingest. -/
  | ingest (source : Source) (offered accepted : List (List Op))
      (answer : Except SessionError Report)
  /-- A stop. -/
  | stop (answer : Except SessionError Totals)

variable {σ : Type}

/-- A session that was never started. -/
def idle (c : Config) (store : σ) : Session σ := { config := c, store := store }

/-- A session behind an ingest whose stages have come to their ends.  The tracker is lost with an
engine that has fallen. -/
def settle (s : Session σ) (stages : Stages σ) : Except IngestError Report → Session σ
  | .error (.panicked _) => { s with store := stages.store, tracker := {}, phase := .failed }
  | .error _ => { s with store := stages.store, tracker := stages.engine.tracker, phase := .failed }
  | .ok report =>
    { s with
      store := stages.store, tracker := stages.engine.tracker, totals := s.totals.add report }

theorem settle_store (s : Session σ) (stages : Stages σ) (result : Except IngestError Report) :
    (s.settle stages result).store = stages.store := by
  rcases result with (e | e | e) | report <;> rfl

/-- An ingest that fails leaves the settings and the totals, and the session has failed. -/
theorem settle_error (s : Session σ) (stages : Stages σ) (e : IngestError) :
    (s.settle stages (.error e)).config = s.config ∧
      (s.settle stages (.error e)).totals = s.totals ∧
      (s.settle stages (.error e)).phase = .failed := by
  cases e <;> exact ⟨rfl, rfl, rfl⟩

/-- What a call can lead to.  The stages of an ingest take their steps in any order. -/
inductive Exchanges [GraphStore σ] (s : Session σ) : Exchange → Session σ → Prop where
  /-- A start. -/
  | start : Exchanges s (.start s.start.2) s.start.1
  /-- A stop. -/
  | stop : Exchanges s (.stop s.stop.2) s.stop.1
  /-- An ingest that the phase does not admit. -/
  | refuse (source : Source) : s.admits .ingest = false →
      Exchanges s (.ingest source [] [] (.error (.wrongPhase s.phase .ingest))) s
  /-- An ingest, when all its stages are at their ends. -/
  | ingest (source : Source) {stages : Stages σ} {result : Except IngestError Report} :
      s.admits .ingest = true →
      Stages.Steps s.config source.failure
        (Stages.start s.config s.tracker s.store source) stages →
      stages.result = some result →
      Exchanges s
        (.ingest source stages.offered stages.accepted (result.mapError SessionError.ingest))
        (s.settle stages result)

/-- Some calls one after the other. -/
inductive History [GraphStore σ] (s : Session σ) : List Exchange → Session σ → Prop where
  /-- No call. -/
  | nil : History s [] s
  /-- Some calls and one more. -/
  | snoc {xs : List Exchange} {x : Exchange} {s' s'' : Session σ} :
      History s xs s' → Exchanges s' x s'' → History s (xs ++ [x]) s''

/-! ## Histories in parts -/

section Parts

variable [GraphStore σ] {s s' : Session σ} {x : Exchange} {xs ys : List Exchange}

theorem History.nil_inv (h : History s [] s') : s' = s := by
  generalize hnil : ([] : List Exchange) = xs at h
  cases h with
  | nil => rfl
  | snoc => simp at hnil

theorem History.concat_inv (h : History s (xs ++ [x]) s') :
    ∃ s₁, History s xs s₁ ∧ Exchanges s₁ x s' := by
  generalize hall : xs ++ [x] = zs at h
  cases h with
  | nil => simp at hall
  | snoc hbefore hx =>
      obtain ⟨rfl, rfl⟩ := List.append_singleton_inj.mp hall
      exact ⟨_, hbefore, hx⟩

/-- Calls in two parts have a session between them. -/
theorem History.append_inv (h : History s (xs ++ ys) s') :
    ∃ s₁, History s xs s₁ ∧ History s₁ ys s' := by
  induction ys using List.reverseRecOn generalizing s' with
  | nil =>
      rw [List.append_nil] at h
      exact ⟨s', h, .nil⟩
  | append_singleton ys y ih =>
      rw [← List.append_assoc] at h
      obtain ⟨s₂, hbefore, hy⟩ := h.concat_inv
      obtain ⟨s₁, hxs, hys⟩ := ih hbefore
      exact ⟨s₁, hxs, hys.snoc hy⟩

theorem History.cons_inv (h : History s (x :: xs) s') :
    ∃ s₁, Exchanges s x s₁ ∧ History s₁ xs s' := by
  have hparts : History s ([x] ++ xs) s' := h
  obtain ⟨s₁, hfirst, hrest⟩ := hparts.append_inv
  have hfirst' : History s ([] ++ [x]) s₁ := hfirst
  obtain ⟨s₀, hnil, hx⟩ := hfirst'.concat_inv
  obtain rfl := hnil.nil_inv
  exact ⟨s₁, hx, hrest⟩

end Parts

/-! ## Starts and stops -/

theorem admits_ingest (s : Session σ) : s.admits .ingest = decide (s.phase = .running) := by
  unfold admits
  cases s.phase <;> rfl

/-- A start fails and leaves all but the store as it was, or it succeeds and begins with a new
tracker. -/
theorem start_cases [GraphStore σ] (s : Session σ) :
    (∃ e, s.start.2 = .error e ∧ s.start.1 = { s with store := s.start.1.store }) ∨
      s.start.2 = .ok () ∧ s.config.validate = .ok () ∧
        s.start.1 = { config := s.config, store := s.start.1.store, phase := .running } := by
  unfold Session.start
  split
  · exact .inl ⟨_, rfl, rfl⟩
  · split
    · exact .inl ⟨_, rfl, rfl⟩
    · rename_i hvalid
      split
      · exact .inl ⟨_, rfl, rfl⟩
      · exact .inr ⟨rfl, hvalid, rfl⟩

/-- Behind a stop a session is not running, or it is as it was. -/
theorem stop_cases (s : Session σ) :
    (∃ e, s.stop.2 = .error e ∧ s.stop.1 = s) ∨
      s.stop.2 = .ok s.totals ∧ s.stop.1 = { s with phase := .stopped } := by
  unfold Session.stop
  split
  · exact .inl ⟨_, rfl, rfl⟩
  · exact .inr ⟨rfl, rfl⟩

theorem Exchanges.start_eq [GraphStore σ] {s s' : Session σ} {answer : Except SessionError Unit}
    (h : Exchanges s (.start answer) s') : answer = s.start.2 ∧ s' = s.start.1 := by
  cases h
  exact ⟨rfl, rfl⟩

/-! ## What an ingest can do -/

section Stages

variable [GraphStore σ] {c : Config} {t : Tracker} {source : Source} {store : σ}
  {stages : Stages σ}

/-- Whatever the store accepted comes first among the operations of the journal. -/
theorem Stages.Agrees.accepted_isPrefix (h : Stages.Agrees c t source store stages) :
    stages.accepted.flatten <+: (digestSource c.skipInvalid t source).ops := by
  have haccepted := Session.accepted_isPrefix store stages.offered
  rw [h.committed.accepted_eq] at haccepted
  obtain ⟨rest, hrest⟩ := haccepted.trans h.committed.among
  refine .trans ?_ (flatten_batches_isPrefix _ c.batchSize source.failure.isNone)
  rw [← referenceBatches, ← hrest, List.flatten_append]
  exact List.prefix_append ..

/-- Stages that end with a report have come to the end of their journal and committed all of it. -/
theorem Stages.Agrees.of_result_ok (h : Stages.Agrees c t source store stages)
    (hblamed : stages.Blamed) (hc : c.validate = .ok ()) {report : Report}
    (hresult : stages.result = some (.ok report)) :
    stages.engine.tracker = (digestSource c.skipInvalid t source).tracker ∧
      stages.accepted.flatten = (digestSource c.skipInvalid t source).ops := by
  have hfailure : source.failure = none := by
    cases hf : source.failure with
    | none => rfl
    | some reason =>
        obtain ⟨e, heq, _⟩ := h.result_error hblamed hf hresult
        cases heq
  obtain ⟨hreport, hoffered, _, htracker⟩ :=
    h.result_eq hc (h.batchFits_of_ok hresult) hfailure hresult
  obtain ⟨hrefusal, hfatal, hdigest⟩ := ingestJournal_ok hreport.symm
  refine ⟨(htracker rfl).trans hdigest, ?_⟩
  rw [offeredBatches_of_accepted hrefusal] at hoffered
  rw [← h.committed.accepted_eq, hoffered, accepted_of_accepted hrefusal,
    referenceBatches, hfailure]
  exact flatten_batches hfatal c.batchSize

end Stages

section Ingest

variable [GraphStore σ] {s s' : Session σ} {source : Source} {offered accepted : List (List Op)}
variable {answer : Except SessionError Report}

/-- Unless the session is running, an ingest does nothing. -/
theorem Exchanges.of_not_running (h : Exchanges s (.ingest source offered accepted answer) s')
    (hphase : s.phase ≠ .running) :
    offered = [] ∧ accepted = [] ∧ answer = .error (.wrongPhase s.phase .ingest) ∧
      s' = s := by
  cases h with
  | refuse => exact ⟨rfl, rfl, rfl, rfl⟩
  | ingest _ hadmits =>
      rw [admits_ingest, decide_eq_true_eq] at hadmits
      exact absurd hadmits hphase

/-- An ingest of a running session: its stages come to their ends, and the session is settled. -/
theorem Exchanges.of_running (h : Exchanges s (.ingest source offered accepted answer) s')
    (hphase : s.phase = .running) (hc : s.config.validate = .ok ()) :
    ∃ stages result, Stages.Agrees s.config s.tracker source s.store stages ∧ stages.Blamed ∧
      stages.result = some result ∧ stages.offered = offered ∧ stages.accepted = accepted ∧
        result.mapError SessionError.ingest = answer ∧ s.settle stages result = s' := by
  cases h with
  | refuse _ hadmits =>
      rw [admits_ingest, hphase] at hadmits
      cases hadmits
  | ingest _ _ hsteps hresult =>
      exact ⟨_, _, .steps hc hsteps, .steps hc hsteps, hresult, rfl, rfl, rfl, rfl⟩

/-- The session goes on if the ingest reports, and has failed if it does not. -/
theorem Exchanges.phase_of_running (h : Exchanges s (.ingest source offered accepted answer) s')
    (hphase : s.phase = .running) :
    s'.config = s.config ∧
      ((∃ report, answer = .ok report ∧ s'.phase = .running) ∨
        ∃ e, answer = .error (.ingest e) ∧ s'.phase = .failed) := by
  cases h with
  | refuse _ hadmits =>
      rw [admits_ingest, hphase] at hadmits
      cases hadmits
  | @ingest _ stages result _ _ _ =>
      cases result with
      | ok report => exact ⟨rfl, .inl ⟨report, rfl, hphase⟩⟩
      | error e =>
          obtain ⟨hconfig, -, hfailed⟩ := s.settle_error stages e
          exact ⟨hconfig, .inr ⟨e, rfl, hfailed⟩⟩

/-- What an ingest of a running session commits comes first among the operations that the tracker
makes of some events.  If the session goes on, they are committed to the last one, and the tracker
has come as far. -/
theorem Exchanges.exists_run (h : Exchanges s (.ingest source offered accepted answer) s')
    (hphase : s.phase = .running) (hc : s.config.validate = .ok ()) :
    ∃ es, accepted.flatten <+: (s.tracker.run es).2 ∧
      (s'.phase = .running →
        s'.tracker = (s.tracker.run es).1 ∧ accepted.flatten = (s.tracker.run es).2) := by
  obtain ⟨stages, result, hagrees, hblamed, hresult, _, rfl, _, rfl⟩ := h.of_running hphase hc
  obtain ⟨es, hrun⟩ := exists_run_eq_digest s.config.skipInvalid s.tracker source.numberedLines
  refine ⟨es, ?_, fun hgoes => ?_⟩
  · rw [hrun]
    exact hagrees.accepted_isPrefix
  · cases result with
    | error e => cases (s.settle_error stages e).2.2.symm.trans hgoes
    | ok report =>
        rw [hrun]
        exact hagrees.of_result_ok hblamed hc hresult

/-- If the journal can be read to its end, an ingest answers and leaves the store as
`Session.ingest` does, and the session too unless it fails. -/
theorem Exchanges.ingest_eq (h : Exchanges s (.ingest source offered accepted answer) s')
    (hc : s.config.validate = .ok ()) (hfailure : source.failure = none) :
    answer = (s.ingest source).2.1 ∧ s'.store = (s.ingest source).1.store ∧
      s'.phase = (s.ingest source).1.phase ∧ s'.totals = (s.ingest source).1.totals ∧
        (s'.phase = .running → s' = (s.ingest source).1) := by
  cases h with
  | refuse _ hadmits =>
      have hrefused : s.ingest source = (s, .error (.wrongPhase s.phase .ingest), []) := by
        rw [Session.ingest, hadmits]
        rfl
      rw [hrefused]
      exact ⟨rfl, rfl, rfl, rfl, fun _ => rfl⟩
  | @ingest _ stages result hadmits hsteps hresult =>
      have hagrees := Stages.Agrees.steps hc hsteps
      unfold Session.ingest
      rw [hadmits]
      cases hfits : s.config.batchFits with
      | false =>
          -- The engine has fallen, and nothing came to the store.
          have hfallen := hagrees.result_fallen hfits (by rw [hresult]; rfl)
          obtain rfl := Option.some.inj (hresult.symm.trans hfallen)
          have hstore := (Stages.Heaped.steps hfits hsteps).store
          exact ⟨rfl, hstore, rfl, rfl, fun hgoes => by cases hgoes⟩
      | true =>
          obtain ⟨hsame, _, hstore, htracker⟩ := hagrees.result_eq hc hfits hfailure hresult
          simp only [Bool.not_true, Bool.false_eq_true, if_false, ← hsame]
          cases result with
          | error e =>
              obtain ⟨-, htotals, hfailed⟩ := s.settle_error stages e
              refine ⟨rfl, (s.settle_store stages _).trans hstore, hfailed,
                htotals, fun hgoes => ?_⟩
              cases hfailed.symm.trans hgoes
          | ok report =>
              refine ⟨rfl, hstore, rfl, rfl, fun _ => ?_⟩
              rw [settle, hstore, htracker rfl]

/-- An ingest as a schedule lets its stages go on. -/
theorem Exchanges.of_schedule {s : Session σ} (hphase : s.phase = .running) (source : Source)
    (schedule : List Stages.Stage)
    (hend : ((Stages.start s.config s.tracker s.store source).follow s.config source.failure
      schedule).result.isSome = true) :
    let stages := (Stages.start s.config s.tracker s.store source).follow s.config source.failure
      schedule
    Exchanges s
      (.ingest source stages.offered stages.accepted
        ((stages.result.get hend).mapError SessionError.ingest))
      (s.settle stages (stages.result.get hend)) := by
  refine .ingest source ?_ (Stages.steps_follow _ schedule) (Option.some_get hend).symm
  rw [admits_ingest, hphase]
  rfl

/-- An ingest of a running session can have an answer exactly if its stages come to their ends. -/
theorem exists_exchange_iff (hadmits : s.admits .ingest = true) (hc : s.config.validate = .ok ())
    (source : Source) :
    (∃ offered accepted answer s', Exchanges s (.ingest source offered accepted answer) s') ↔
      s.config.completes source = true := by
  constructor
  · rintro ⟨_, _, _, _, h⟩
    cases h with
    | refuse _ hrefused => cases hrefused.symm.trans hadmits
    | ingest _ _ hsteps hresult =>
        have hended := Stages.isSome_result_iff.mp (Option.isSome_iff_exists.mpr ⟨_, hresult⟩)
        exact (Stages.allEnded_iff_completes hc hsteps (hended.step_eq_none _ _)).mp hended
  · intro hcompletes
    obtain ⟨stages, hsteps, -, hended⟩ := Stages.exists_stuck_iff hc
      (.refl (Stages.start s.config s.tracker s.store source))
    obtain ⟨result, hresult⟩ :=
      Option.isSome_iff_exists.mp (Stages.isSome_result_iff.mpr (hended.mpr hcompletes))
    exact ⟨_, _, _, _, .ingest source hadmits hsteps hresult⟩

/-- What comes of an ingest that is tried.  It panics when its stages cannot begin, it waits for
ever when they have begun and it can have no answer, and otherwise it answers as `Session.ingest`
does. -/
theorem tryIngest_cases (hadmits : s.admits .ingest = true) (hc : s.config.validate = .ok ())
    (source : Source) :
    match s.tryIngest source with
    | .panics p => Stages.launch s.config s.tracker s.store source = .error p
    | .waits =>
        (∃ stages, Stages.launch s.config s.tracker s.store source = .ok stages) ∧
          ∀ offered accepted answer s', ¬ Exchanges s (.ingest source offered accepted answer) s'
    | .answers a =>
        (∃ stages, Stages.launch s.config s.tracker s.store source = .ok stages) ∧
          (∃ offered accepted answer s',
            Exchanges s (.ingest source offered accepted answer) s') ∧
            a = s.ingest source := by
  have hexchange := exists_exchange_iff hadmits hc source
  unfold Session.tryIngest Stages.launch
  rw [hadmits]
  cases s.config.ringsFit with
  | false => rfl
  | true =>
      cases hcompletes : s.config.completes source with
      | false =>
          rw [hcompletes] at hexchange
          refine ⟨⟨_, rfl⟩, fun offered accepted answer s' hx => ?_⟩
          cases hexchange.mp ⟨_, _, _, _, hx⟩
      | true => exact ⟨⟨_, rfl⟩, hexchange.mpr hcompletes, rfl⟩

end Ingest

/-! ## The graph of the store -/

section Graph

variable [MemoryStore σ] {s s' : Session σ} {x : Exchange}

/-- The batches that a call has committed. -/
def Exchange.accepted : Exchange → List (List Op)
  | .ingest _ _ accepted _ => accepted
  | _ => []

theorem start_graph (s : Session σ) :
    MemoryStore.graph s.start.1.store = MemoryStore.graph s.store := by
  have hprepare := MemoryStore.graph_prepare s.store
  unfold Session.start
  split
  · rfl
  · split
    · rfl
    · split
      · rename_i heq
        rw [heq] at hprepare
        exact hprepare
      · rename_i heq
        rw [heq] at hprepare
        exact hprepare

/-- A call applies to the graph what it commits, and nothing else. -/
theorem Exchanges.graph_eq (h : Exchanges s x s')
    (hc : s.phase = .running → s.config.validate = .ok ()) :
    ∃ g, (MemoryStore.graph s.store).applyAll x.accepted.flatten = .ok g ∧
      MemoryStore.graph s'.store =
        { g with batches := (MemoryStore.graph s.store).batches + x.accepted.length } := by
  cases h with
  | start => exact ⟨_, rfl, s.start_graph⟩
  | stop =>
      refine ⟨_, rfl, ?_⟩
      unfold Session.stop
      split <;> rfl
  | refuse => exact ⟨_, rfl, rfl⟩
  | @ingest source stages result hadmits hsteps hresult =>
      rw [admits_ingest, decide_eq_true_eq] at hadmits
      have hoffer := (Stages.Agrees.steps (hc hadmits) hsteps).committed.offer_eq
      have hgraph := MemoryStore.offer_graph s.store stages.offered
      rw [hoffer] at hgraph
      rw [settle_store]
      exact hgraph

end Graph

end Session

end Lineage

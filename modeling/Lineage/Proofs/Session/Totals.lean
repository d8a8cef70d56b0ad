import Mathlib.Algebra.BigOperators.Group.List.Basic
import Mathlib.Algebra.GroupWithZero.Nat
import Mathlib.Data.List.DropRight
import Lineage.Proofs.Session.Split
import Lineage.Proofs.Tracker.Counting

/-!
# What the totals count

Some totals are summed from one report to the next.  Others are what the tracker of the session
counts, and an ingest that fails moves the tracker on and may have committed batches, too.  Still
the totals say nothing of it: they describe the ingests that have reported since the last start that
succeeded (`totals_of_history`).  An ingest that reports has committed all that its tracker counts,
and one that fails lets no other report before the next start.
-/

namespace Lineage.Session

open Lineage.Audit (Source)
open Lineage.Graph (GraphStore Guarded Op)

/-! ## The ingests that count -/

/-- An ingest that has reported. -/
structure Success where
  /-- The batches that the store has accepted. -/
  accepted : List (List Op)
  /-- Its report. -/
  report : Report

/-- The ingest of a call, if it has reported. -/
def Exchange.success? : Exchange → Option Success
  | .ingest _ _ accepted (.ok report) => some ⟨accepted, report⟩
  | _ => none

/-- Whether a call is a start that has succeeded. -/
def Exchange.begins : Exchange → Bool
  | .start (.ok ()) => true
  | _ => false

/-- Whether a call was refused or has failed. -/
def Exchange.fails : Exchange → Bool
  | .start (.error _) | .ingest _ _ _ (.error _) | .stop (.error _) => true
  | _ => false

/-- The ingests that have reported since the last start that succeeded, in order. -/
def successes (xs : List Exchange) : List Success :=
  (xs.rtakeWhile fun x => !x.begins).filterMap Exchange.success?

theorem successes_concat (xs : List Exchange) (x : Exchange) :
    successes (xs ++ [x]) = if x.begins then [] else successes xs ++ x.success?.toList := by
  unfold successes
  rw [List.rtakeWhile_concat]
  cases x.begins with
  | true => rfl
  | false => cases hsuccess : x.success? <;> simp [hsuccess]

/-- Totals that describe some ingests, all but the number of live processes. -/
structure Totals.Describes (t : Totals) (l : List Success) : Prop where
  ingests : t.ingests = l.length
  lines : t.lines = (l.map fun i => i.report.lines).sum
  events : t.events = (l.map fun i => i.report.events).sum
  invalid : t.invalid = (l.map fun i => i.report.invalid).sum
  ops : t.ops = (l.flatMap Success.accepted).flatten.length
  batches : t.batches = (l.flatMap Success.accepted).length
  nodesCreated : t.nodesCreated = (l.flatMap Success.accepted).flatten.countP Op.isCreateNode

namespace Totals.Describes

theorem none : Describes {} [] := ⟨rfl, rfl, rfl, rfl, rfl, rfl, rfl⟩

/-- One more report is added, whose nodes are counted on from those before. -/
theorem add {t : Totals} {l : List Success} (h : t.Describes l) {i : Success}
    (hops : i.report.ops = i.accepted.flatten.length)
    (hbatches : i.report.batches = i.accepted.length)
    (hnodes : i.report.tracker.nodesCreated =
      t.nodesCreated + i.accepted.flatten.countP Op.isCreateNode) :
    (t.add i.report).Describes (l ++ [i]) := by
  constructor <;>
    simp only [Totals.add, List.length_append, List.map_append, List.sum_append,
      List.flatMap_append, List.flatten_append, List.countP_append, List.flatMap_singleton,
      List.map_singleton, List.sum_singleton, List.length_singleton, h.ingests, h.lines, h.events,
      h.invalid, h.ops, h.batches, hops, hbatches, hnodes, h.nodesCreated]

/-- Without an ingest all totals are zero. -/
theorem eq_zero {t : Totals} (h : t.Describes []) (hlive : t.live = 0) : t = {} := by
  obtain ⟨hingests, hlines, hevents, hinvalid, hops, hbatches, hnodes⟩ := h
  cases t
  cases hingests
  cases hlines
  cases hevents
  cases hinvalid
  cases hops
  cases hbatches
  cases hnodes
  cases hlive
  rfl

end Totals.Describes

/-! ## Calls -/

section Calls

variable {σ : Type}

/-- What stages report when they have come to their ends: what the store has accepted, and what the
tracker counts. -/
theorem Stages.report_eq {stages : Stages σ} {report : Report}
    (h : stages.result = some (.ok report)) :
    report.ops = stages.accepted.flatten.length ∧ report.batches = stages.accepted.length ∧
      report.tracker = stages.engine.tracker.stats := by
  cases Stages.comesTo_of_result h with
  | reported => exact ⟨rfl, rfl, rfl⟩

variable [GraphStore σ] {s s' : Session σ} {x : Exchange}

/-- An ingest that reports is one of a running session, which goes on with the report added. -/
theorem Exchanges.of_report {source : Source} {offered accepted : List (List Op)} {report : Report}
    (h : Exchanges s (.ingest source offered accepted (.ok report)) s') :
    s.phase = .running ∧
      s' = { s with store := s'.store, tracker := s'.tracker, totals := s.totals.add report } ∧
      report.ops = accepted.flatten.length ∧ report.batches = accepted.length ∧
        report.tracker = s'.tracker.stats := by
  generalize hanswer : (.ok report : Except SessionError Report) = answer at h
  cases h with
  | refuse => cases hanswer
  | @ingest _ stages result hadmits _ hresult =>
      rw [admits_ingest, decide_eq_true_eq] at hadmits
      cases result with
      | error e => cases hanswer
      | ok r =>
          cases hanswer
          exact ⟨hadmits, rfl, Stages.report_eq hresult⟩

/-- A call that neither begins a session nor reports leaves the totals alone. -/
theorem Exchanges.totals_eq (h : Exchanges s x s') (hbegins : x.begins = false)
    (hsuccess : x.success? = none) : s'.totals = s.totals := by
  cases h with
  | start =>
      rcases s.start_cases with ⟨_, _, heq⟩ | ⟨hok, _⟩
      · rw [heq]
      · rw [hok] at hbegins
        cases hbegins
  | stop => rcases s.stop_cases with ⟨_, _, heq⟩ | ⟨_, heq⟩ <;> rw [heq]
  | refuse => rfl
  | @ingest _ _ result _ _ _ =>
      cases result with
      | error e => exact (s.settle_error _ e).2.1
      | ok report => cases hsuccess

/-- A call that is refused or fails does neither. -/
theorem Exchange.quiet_of_fails {x : Exchange} (h : x.fails = true) :
    x.begins = false ∧ x.success? = none := by
  cases x with
  | start answer => cases answer <;> first | exact ⟨rfl, rfl⟩ | cases h
  | ingest source offered accepted answer => cases answer <;> first | exact ⟨rfl, rfl⟩ | cases h
  | stop answer => exact ⟨rfl, rfl⟩

/-- What the store has accepted of an ingest is what it accepts of the batches it was offered. -/
theorem Exchanges.offer_eq {source : Source} {offered accepted : List (List Op)}
    {answer : Except SessionError Report}
    (h : Exchanges s (.ingest source offered accepted answer) s')
    (hc : s.phase = .running → s.config.validate = .ok ()) :
    (offer s.store offered).accepted = accepted ∧ (offer s.store offered).store = s'.store := by
  by_cases hphase : s.phase = .running
  · obtain ⟨stages, result, hagrees, _, _, rfl, rfl, _, rfl⟩ := h.of_running hphase (hc hphase)
    rw [hagrees.committed.offer_eq]
    exact ⟨rfl, (s.settle_store stages result).symm⟩
  · obtain ⟨rfl, rfl, _, rfl⟩ := h.of_not_running hphase
    exact ⟨rfl, rfl⟩

end Calls

/-! ## Histories -/

section Histories

variable {σ : Type}

/-- The totals describe some ingests, and while the session is running its tracker has counted their
nodes and no others. -/
structure Accounts (l : List Success) (s : Session σ) : Prop where
  valid : s.phase = .running → s.config.validate = .ok ()
  describes : s.totals.Describes l
  live : l = [] → s.totals.live = 0
  nodesCreated : s.phase = .running → s.tracker.nodesCreated = s.totals.nodesCreated

namespace Accounts

variable {l : List Success} {s s' : Session σ} {x : Exchange}

theorem idle (c : Config) (store : σ) : Accounts [] (idle c store) where
  valid hphase := by cases hphase
  describes := .none
  live _ := rfl
  nodesCreated hphase := by cases hphase

/-- A session that is not running keeps account as long as its totals stay. -/
theorem of_not_running (h : Accounts l s) (htotals : s'.totals = s.totals)
    (hphase : s'.phase ≠ .running) :
    Accounts l s' where
  valid hgoes := absurd hgoes hphase
  describes := htotals ▸ h.describes
  live := htotals ▸ h.live
  nodesCreated hgoes := absurd hgoes hphase

theorem stop (h : Accounts l s) : Accounts l s.stop.1 := by
  rcases s.stop_cases with ⟨_, _, heq⟩ | ⟨_, heq⟩
  · rw [heq]
    exact h
  · rw [heq]
    exact h.of_not_running rfl fun hgoes => by cases hgoes

variable [GraphStore σ]

theorem start (h : Accounts l s) :
    Accounts (if (Exchange.start s.start.2).begins then [] else l) s.start.1 := by
  rcases s.start_cases with ⟨e, he, heq⟩ | ⟨hok, hvalid, heq⟩
  · rw [he, heq]
    exact ⟨h.valid, h.describes, h.live, h.nodesCreated⟩
  · rw [hok, heq]
    exact ⟨fun _ => hvalid, .none, fun _ => rfl, fun _ => rfl⟩

/-- An ingest that reports has committed all nodes that the tracker has counted in it. -/
theorem report (h : Accounts l s) {source : Source} {offered accepted : List (List Op)}
    {report : Report} (hx : Exchanges s (.ingest source offered accepted (.ok report)) s') :
    Accounts (l ++ [⟨accepted, report⟩]) s' := by
  obtain ⟨hphase, hsame, hops, hbatches, hstats⟩ := hx.of_report
  obtain ⟨es, _, hall⟩ := hx.exists_run hphase (h.valid hphase)
  have hgoes : s'.phase = .running := by rw [hsame]; exact hphase
  have htotals : s'.totals = s.totals.add report := by rw [hsame]
  obtain ⟨htracker, hcommitted⟩ := hall hgoes
  have hnodes : report.tracker.nodesCreated =
      s.totals.nodesCreated + accepted.flatten.countP Op.isCreateNode := by
    rw [hstats, ← h.nodesCreated hphase, hcommitted, htracker]
    exact s.tracker.nodesCreated_run es
  refine ⟨fun _ => ?_, ?_, fun hnil => ?_, fun _ => ?_⟩
  · rw [hsame]
    exact h.valid hphase
  · rw [htotals]
    exact h.describes.add (i := ⟨accepted, report⟩) hops hbatches hnodes
  · exact absurd hnil (List.append_ne_nil_of_right_ne_nil _ (List.cons_ne_nil _ _))
  · rw [htotals, Totals.add, hstats]
    rfl

/-- An ingest that is refused or fails leaves the totals alone, and no session goes on that it
moved. -/
theorem failure (h : Accounts l s) {source : Source} {offered accepted : List (List Op)}
    {e : SessionError} (hx : Exchanges s (.ingest source offered accepted (.error e)) s') :
    Accounts l s' := by
  by_cases hphase : s.phase = .running
  · refine h.of_not_running (hx.totals_eq rfl rfl) ?_
    rcases (hx.phase_of_running hphase).2 with ⟨_, hok, _⟩ | ⟨_, _, hfailed⟩
    · cases hok
    · rw [hfailed]
      exact fun hgoes => by cases hgoes
  · obtain ⟨_, _, _, rfl⟩ := hx.of_not_running hphase
    exact h

/-- A call keeps account: a start that succeeds begins anew, and an ingest that reports is one
more. -/
theorem exchange (h : Accounts l s) (hx : Exchanges s x s') :
    Accounts (if x.begins then [] else l ++ x.success?.toList) s' := by
  cases x with
  | start answer =>
      obtain ⟨rfl, rfl⟩ := hx.start_eq
      simpa [Exchange.success?] using h.start
  | stop answer =>
      cases hx
      simpa [Exchange.begins, Exchange.success?] using h.stop
  | ingest source offered accepted answer =>
      cases answer with
      | ok report => exact h.report hx
      | error e => simpa [Exchange.begins, Exchange.success?] using h.failure hx

theorem history {c : Config} {store : σ} {xs : List Exchange}
    (h : History (Session.idle c store) xs s) :
    Accounts (successes xs) s := by
  induction h with
  | nil => exact idle c store
  | snoc _ hx ih =>
      rw [successes_concat]
      exact ih.exchange hx

end Accounts

variable [GraphStore σ] {s s' : Session σ} {xs : List Exchange}

/-- Calls of which none begins a session or reports leave the totals alone. -/
theorem History.totals_eq (h : History s xs s')
    (hquiet : ∀ x ∈ xs, x.begins = false ∧ x.success? = none) : s'.totals = s.totals := by
  induction h with
  | nil => rfl
  | snoc _ hx ih =>
      obtain ⟨hbegins, hsuccess⟩ := hquiet _ List.mem_concat_self
      rw [hx.totals_eq hbegins hsuccess, ih fun y hy => hquiet y (List.mem_append_left _ hy)]

/-- Whatever was called, the totals describe the ingests that have reported since the last start
that succeeded: their number and the sums of their reports, and the batches, operations and new
nodes that the store has accepted of them.  The number of live processes is that behind the last of
these ingests, and zero if there was none.  A call that is refused or fails changes nothing of
it. -/
theorem totals_of_history {c : Config} {store : σ} (h : History (idle c store) xs s) :
    s.totals.Describes (successes xs) ∧
    (successes xs = [] → s.totals = {}) ∧
    (∀ before x after s₁, xs = before ++ x :: after → x.success?.isSome = true →
      (∀ y ∈ after, y.begins = false ∧ y.success? = none) →
        History (idle c store) (before ++ [x]) s₁ → History s₁ after s →
          s.totals.live = s₁.tracker.roster.size) ∧
    ∀ x s', Exchanges s x s' →
      (x.fails = true → s'.totals = s.totals) ∧
      ∀ source offered accepted answer, x = .ingest source offered accepted answer →
        (offer s.store offered).accepted = accepted ∧
          (offer s.store offered).store = s'.store := by
  have haccounts := Accounts.history h
  refine ⟨haccounts.describes, fun hnone => ?_, ?_, fun x s' hx => ⟨fun hfails => ?_, ?_⟩⟩
  · have hdescribes := haccounts.describes
    rw [hnone] at hdescribes
    exact hdescribes.eq_zero (haccounts.live hnone)
  · rintro before x after s₁ rfl hsuccess hquiet hbefore hafter
    obtain ⟨s₀, _, hx⟩ := hbefore.concat_inv
    rw [hafter.totals_eq hquiet]
    cases x with
    | start => cases hsuccess
    | stop => cases hsuccess
    | ingest source offered accepted answer =>
        cases answer with
        | error e => cases hsuccess
        | ok report =>
            obtain ⟨_, hsame, _, _, hstats⟩ := hx.of_report
            rw [hsame, Totals.add, hstats]
            rfl
  · obtain ⟨hbegins, hsuccess⟩ := Exchange.quiet_of_fails hfails
    exact hx.totals_eq hbegins hsuccess
  · rintro source offered accepted answer rfl
    exact hx.offer_eq haccounts.valid

end Histories

/-- A store that refuses to prepare once, two ingests that report, and one whose journal breaks off.
It has committed a batch of its own, and the totals are those of the two. -/
theorem totals_of_history_failed :
    ∃ (c : Config) (store : Guarded) (xs : List Exchange) (s : Session Guarded),
      History (idle c store) xs s ∧ xs.length = 6 ∧ s.phase = .stopped ∧
        (successes xs).length = 2 ∧
        s.store.graph.nodes.size = 3 ∧ s.totals = ⟨2, 2, 2, 0, 2, 2, 2, 2⟩ ∧
          s.totals.Describes (successes xs) := by
  let c : Config := ⟨.simple, 1, true⟩
  let store : Guarded := { badPrepares := fun n => if n = 0 then some .storage else none }
  let schedule := (List.replicate 16 [Stages.Stage.reader, .parser 0, .engine, .keeper]).flatten
  let run (s : Session Guarded) (source : Source) :=
    (Stages.start s.config s.tracker s.store source).follow s.config source.failure schedule
  let s := (idle c store).start.1.start.1
  let s₁ := s.settle (run s ⟨sighting "P", none⟩) (.ok ⟨1, 1, 0, 1, 1, ⟨1, 1, 1⟩⟩)
  let s₂ := s₁.settle (run s₁ ⟨sighting "Q", none⟩)
    (.ok ⟨1, 1, 0, 1, 1, ⟨2, 2, 2⟩⟩)
  have hstarts : History (idle c store) _ s := .snoc (.snoc .nil .start) .start
  have hp := Exchanges.of_schedule_ok (s := s) (by decide +kernel) ⟨sighting "P", none⟩ schedule
    ⟨1, 1, 0, 1, 1, ⟨1, 1, 1⟩⟩ (by decide +kernel)
  have hq :=
    Exchanges.of_schedule_ok (s := s₁) (by decide +kernel) ⟨sighting "Q", none⟩ schedule
      ⟨1, 1, 0, 1, 1, ⟨2, 2, 2⟩⟩ (by decide +kernel)
  -- The store is quicker than the reader, which has not yet come to where the journal breaks off.
  have hr := Exchanges.of_schedule (s := s₂) (by decide +kernel) ⟨sighting "R", some "gone"⟩
    ([.reader, .reader, .parser 0, .parser 0, .engine, .engine, .engine, .engine, .keeper,
      .keeper] ++ schedule)
    (by decide +kernel)
  have h := (((hstarts.snoc hp).snoc hq).snoc hr).snoc .stop
  exact ⟨c, store, _, _, h, rfl, by decide +kernel, by decide +kernel, by decide +kernel,
    by decide +kernel, (totals_of_history h).1⟩

end Lineage.Session

import Lineage.Proofs.Session.History
import Lineage.Proofs.Tracker.Coherence

/-!
# What a session keeps

While a session is running, its graph knows every live process as the tracker does (`Sound`).  A new
session knows nothing.  An ingest that reports has committed all that its tracker knows, and one
that fails ends the session, since its tracker may know more than the graph.

`history_invariant` says so of any calls one after the other, with the rules for the calls
themselves.
-/

namespace Lineage.Session

open Lineage.Audit (Source)
open Lineage.Graph (Guarded Memory MemoryStore Op)

variable {σ : Type} [MemoryStore σ]

/-- While it is running, a session has settings that are in order, and a graph that is coherent with
its tracker. -/
structure Sound (s : Session σ) : Prop where
  valid : s.phase = .running → s.config.validate = .ok ()
  wellFormed : s.phase = .running → s.tracker.roster.WellFormed
  coherent : s.phase = .running → s.tracker.roster.Coherent (MemoryStore.graph s.store)

namespace Sound

variable {s s' : Session σ} {x : Exchange}

theorem of_not_running (h : s.phase ≠ .running) : Sound s :=
  ⟨fun hphase => absurd hphase h, fun hphase => absurd hphase h, fun hphase => absurd hphase h⟩

theorem start (h : Sound s) : Sound s.start.1 := by
  have hgraph := s.start_graph
  rcases s.start_cases with ⟨_, _, heq⟩ | ⟨_, hvalid, heq⟩
  · rw [heq] at hgraph ⊢
    refine ⟨h.valid, h.wellFormed, fun hphase => ?_⟩
    rw [hgraph]
    exact h.coherent hphase
  · rw [heq]
    exact ⟨fun _ => hvalid, fun _ => .new, fun _ => .new _⟩

theorem stop (h : Sound s) : Sound s.stop.1 := by
  rcases s.stop_cases with ⟨_, _, heq⟩ | ⟨_, heq⟩
  · rw [heq]
    exact h
  · rw [heq]
    exact .of_not_running (fun hphase => by cases hphase)

/-- A session that goes on behind an ingest has committed all that its tracker knows. -/
theorem ingest (h : Sound s) {source : Source} {offered accepted : List (List Op)}
    {answer : Except SessionError Report}
    (hx : Exchanges s (.ingest source offered accepted answer) s') : Sound s' := by
  by_cases hphase : s.phase = .running
  · have hvalid := h.valid hphase
    have hconfig := (hx.phase_of_running hphase).1
    obtain ⟨es, _, hall⟩ := hx.exists_run hphase hvalid
    obtain ⟨g, happly, hgraph⟩ := hx.graph_eq h.valid
    have hwf := Tracker.wellFormed_run (h.wellFormed hphase) es
    refine ⟨fun _ => by rw [hconfig]; exact hvalid, fun hgoes => ?_, fun hgoes => ?_⟩
    · rw [(hall hgoes).1]
      exact hwf
    · obtain ⟨htracker, hcommitted⟩ := hall hgoes
      obtain ⟨m, hm, hcoherent⟩ :=
        Tracker.run_coherent (h.coherent hphase) (h.wellFormed hphase) es
      rw [Exchange.accepted, hcommitted, hm] at happly
      cases happly
      -- Being coherent is a matter of the nodes, and not of the count of batches.
      rw [htracker, hgraph]
      exact hcoherent
  · obtain ⟨_, _, _, rfl⟩ := hx.of_not_running hphase
    exact h

theorem exchange (h : Sound s) (hx : Exchanges s x s') : Sound s' := by
  cases x with
  | start answer =>
      cases hx
      exact h.start
  | stop answer =>
      cases hx
      exact h.stop
  | ingest source offered accepted answer => exact h.ingest hx

/-- Whatever was called, the session is sound. -/
theorem history {c : Config} {store : σ} {xs : List Exchange}
    (h : History (idle c store) xs s) : Sound s := by
  induction h with
  | nil => exact .of_not_running (fun hphase => by cases hphase)
  | snoc _ hx ih => exact ih.exchange hx

end Sound

/-! ## A session that is not running -/

section Refusals

variable {s s' : Session σ} {x : Exchange}

/-- Only a start that succeeds sets a session running, and no other call reaches the graph
before. -/
theorem Exchanges.of_start_failed (h : Exchanges s x s') (hphase : s.phase ≠ .running)
    (hstart : x ≠ .start (.ok ())) :
    s'.phase ≠ .running ∧ MemoryStore.graph s'.store = MemoryStore.graph s.store := by
  cases x with
  | start answer =>
      cases h
      refine ⟨?_, s.start_graph⟩
      rcases s.start_cases with ⟨_, _, heq⟩ | ⟨hok, _⟩
      · rw [heq]
        exact hphase
      · exact absurd (congrArg Exchange.start hok) hstart
  | stop answer =>
      cases h
      rcases s.stop_cases with ⟨_, _, heq⟩ | ⟨_, heq⟩
      · rw [heq]
        exact ⟨hphase, rfl⟩
      · rw [heq]
        exact ⟨fun hgoes => (by cases hgoes), rfl⟩
  | ingest source offered accepted answer =>
      obtain ⟨_, _, _, rfl⟩ := h.of_not_running hphase
      exact ⟨hphase, rfl⟩

/-- Until a start succeeds, every ingest is refused and the graph stays as it is. -/
theorem History.of_start_failed {xs : List Exchange} (h : History s xs s')
    (hphase : s.phase ≠ .running) (hstart : Exchange.start (.ok ()) ∉ xs) :
    s'.phase ≠ .running ∧ MemoryStore.graph s'.store = MemoryStore.graph s.store ∧
      ∀ source offered accepted answer, .ingest source offered accepted answer ∈ xs →
        offered = [] ∧ ∃ phase, answer = .error (.wrongPhase phase .ingest) := by
  induction h with
  | nil => exact ⟨hphase, rfl, fun _ _ _ _ hmem => by cases hmem⟩
  | @snoc xs x s' s'' _ hx ih =>
      obtain ⟨hphase', hgraph', hrefused⟩ := ih fun hmem => hstart (List.mem_append_left _ hmem)
      have hlast : x ≠ .start (.ok ()) := by
        rintro rfl
        exact hstart (List.mem_append_right _ (List.mem_singleton.mpr rfl))
      obtain ⟨hphase'', hgraph''⟩ := hx.of_start_failed hphase' hlast
      refine ⟨hphase'', hgraph''.trans hgraph', fun source offered accepted answer hmem => ?_⟩
      rcases List.mem_append.mp hmem with hold | hnew
      · exact hrefused source offered accepted answer hold
      · obtain rfl := List.mem_singleton.mp hnew
        obtain ⟨hoffered, _, hanswer, _⟩ := hx.of_not_running hphase'
        exact ⟨hoffered, _, hanswer⟩

end Refusals

/-- Whatever was called before, a running session has a graph that knows every live process as its
tracker does.  An ingest reaches the store only while the session is running.  A start that fails
changes nothing.  And behind an ingest that fails, every ingest is refused and leaves the store
alone until a start succeeds. -/
theorem history_invariant {c : Config} {store : σ} {xs : List Exchange} {s : Session σ}
    (h : History (idle c store) xs s) :
    (s.phase = .running → s.tracker.roster.Coherent (MemoryStore.graph s.store)) ∧
    ∀ x s', Exchanges s x s' →
      (∀ source offered accepted answer, x = .ingest source offered accepted answer →
        s.phase ≠ .running →
          offered = [] ∧ answer = .error (.wrongPhase s.phase .ingest) ∧ s' = s) ∧
      (∀ e, x = .start (.error e) →
        s'.phase = s.phase ∧ s'.tracker = s.tracker ∧ s'.totals = s.totals ∧
          MemoryStore.graph s'.store = MemoryStore.graph s.store) ∧
      (∀ source offered accepted e, x = .ingest source offered accepted (.error (.ingest e)) →
        ∀ ys s'', History s' ys s'' → Exchange.start (.ok ()) ∉ ys →
          s''.phase ≠ .running ∧ MemoryStore.graph s''.store = MemoryStore.graph s'.store ∧
            ∀ source offered accepted answer, .ingest source offered accepted answer ∈ ys →
              offered = [] ∧ ∃ phase, answer = .error (.wrongPhase phase .ingest)) := by
  refine ⟨(Sound.history h).coherent, fun x s' hx => ⟨?_, ?_, ?_⟩⟩
  · rintro source offered accepted answer rfl hphase
    obtain ⟨hoffered, _, hanswer, hsame⟩ := hx.of_not_running hphase
    exact ⟨hoffered, hanswer, hsame⟩
  · rintro e rfl
    obtain ⟨he, rfl⟩ := hx.start_eq
    have hgraph := s.start_graph
    rcases s.start_cases with ⟨_, _, heq⟩ | ⟨hok, _⟩
    · rw [heq] at hgraph ⊢
      exact ⟨rfl, rfl, rfl, hgraph⟩
    · rw [hok] at he
      cases he
  · rintro source offered accepted e rfl ys s'' hys hstart
    refine hys.of_start_failed ?_ hstart
    by_cases hphase : s.phase = .running
    · rcases (hx.phase_of_running hphase).2 with ⟨report, hok, _⟩ | ⟨_, _, hfailed⟩
      · cases hok
      · rw [hfailed]
        exact fun hgoes => by cases hgoes
    · obtain ⟨_, _, _, rfl⟩ := hx.of_not_running hphase
      exact hphase

/-- A store that refuses to prepare once: the second start succeeds, and the graph knows the process
that an ingest brings. -/
theorem history_invariant_process :
    ∃ (c : Config) (store : Guarded) (xs : List Exchange) (s : Session Guarded),
      History (idle c store) xs s ∧ xs.length = 3 ∧ s.phase = .running ∧
        s.tracker.roster.find? "P" = some 0 ∧
          ∃ p, s.store.graph.nodes.get? 0 = some p ∧ p.uuid = "P" := by
  let c : Config := ⟨.simple, 4, true⟩
  let store : Guarded := { badPrepares := fun n => if n = 0 then some .storage else none }
  let s := (idle c store).start.1.start.1
  let schedule := (List.replicate 12 [Stages.Stage.reader, .parser 0, .engine, .keeper]).flatten
  have hstarts : History (idle c store) _ s := .snoc (.snoc .nil .start) .start
  have hx := Exchanges.of_schedule (s := s) (by decide +kernel) ⟨sighting "P", none⟩ schedule
    (by decide +kernel)
  have h := hstarts.snoc hx
  obtain ⟨_, p, _, hp, _, huuid, _⟩ :=
    (history_invariant h).1 (by decide +kernel) "P" 0 (by decide +kernel)
  exact ⟨c, store, _, _, h, rfl, by decide +kernel, by decide +kernel, p, hp, huuid⟩

end Lineage.Session

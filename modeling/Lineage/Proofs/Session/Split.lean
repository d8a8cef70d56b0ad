import Lineage.Proofs.Session.History

/-!
# A journal in two parts

A journal may be cut behind a line feed and its parts ingested one after the other.  Its lines are
those of the parts (`splitLines_append`), and their numbers matter to nothing but the errors of the
lines that are refused (`Digest.Alike`).  So the second digest goes on where the first one stopped
(`digestSource_split`).

`ingest_split` says it of sessions: what tells one ingest from two of them is how the operations
were cut into batches, and nothing else.
-/

namespace Lineage

open Lineage.Audit (Event LineError Source isBlankLine isComplete readLine splitLine splitLines)
open Lineage.Graph (GraphStore Memory MemoryStore Op)
open Lineage.Json (Bytes lineFeed)

/-! ## Lines -/

namespace Audit

/-- A first line that is complete stays the first line when more text follows. -/
theorem splitLine_append_of_complete {s : Bytes} (h : isComplete (splitLine s).1 = true)
    (b : Bytes) :
    splitLine (s ++ b) = ((splitLine s).1, (splitLine s).2 ++ b) := by
  have happend := List.takeWhile_append_dropWhile (p := (· != lineFeed)) (l := s)
  unfold splitLine at h ⊢
  rw [List.dropWhile_append, List.takeWhile_append]
  cases hdrop : s.dropWhile (· != lineFeed) with
  | nil =>
      -- Then the text has no line feed at all, and cannot end in one.
      rw [hdrop] at h
      rw [hdrop, List.append_nil] at happend
      have hlast : lineFeed ∈ s.takeWhile (· != lineFeed) := by
        rw [happend]
        exact List.mem_of_getLast? (beq_iff_eq.mp h)
      have hnot := List.all_eq_true.mp List.all_takeWhile lineFeed hlast
      simp at hnot
  | cons x r =>
      rw [hdrop] at happend
      have hshort : (s.takeWhile (· != lineFeed)).length ≠ s.length := by
        have hlength := congrArg List.length happend
        rw [List.length_append, List.length_cons] at hlength
        omega
      simp [hshort]

/-- The lines of a text that is cut behind a line feed are those of its parts. -/
theorem splitLines_append {a : Bytes} (h : a = [] ∨ isComplete a = true) (b : Bytes) :
    splitLines (a ++ b) = splitLines a ++ splitLines b := by
  match a with
  | [] => rw [splitLines_nil, List.nil_append, List.nil_append]
  | x :: s =>
      have hcomplete := h.resolve_left (List.cons_ne_nil x s)
      have hsplit := splitLine_append (x :: s)
      have hfirst : isComplete (splitLine (x :: s)).1 = true := by
        cases hcut : isComplete (splitLine (x :: s)).1 with
        | true => rfl
        | false =>
            rw [splitLine_snd_of_incomplete hcut, List.append_nil] at hsplit
            rw [hsplit, hcomplete] at hcut
            cases hcut
      have hrest : (splitLine (x :: s)).2 = [] ∨ isComplete (splitLine (x :: s)).2 = true := by
        cases hr : (splitLine (x :: s)).2 with
        | nil => exact .inl rfl
        | cons y r =>
            refine .inr ?_
            rw [hr] at hsplit
            rw [isComplete, ← hsplit, List.getLast?_append, List.getLast?_cons,
              Option.some_or] at hcomplete
            rw [isComplete, List.getLast?_cons, hcomplete]
      rw [List.cons_append, splitLines_cons, ← List.cons_append,
        splitLine_append_of_complete hfirst, splitLines_append hrest b,
        splitLines_cons x s, List.cons_append]
termination_by a.length
decreasing_by exact length_splitLine_lt

end Audit

namespace Session

/-! ## Digests of lines with other numbers -/

theorem numberFrom_append (line : Nat) (l m : List Bytes) :
    numberFrom line (l ++ m) = numberFrom line l ++ numberFrom (line + l.length) m := by
  simp [numberFrom, List.zipIdx_append, Nat.add_right_comm]

/-- Digests that differ in nothing but the numbers of the lines that were refused. -/
structure Digest.Alike (d d' : Digest) : Prop where
  tracker : d'.tracker = d.tracker
  ops : d'.ops = d.ops
  events : d'.events = d.events
  skipped : d'.skipped.length = d.skipped.length

namespace Digest.Alike

theorem refl (d : Digest) : Alike d d := ⟨rfl, rfl, rfl, rfl⟩

theorem both {d₁ d₁' d₂ d₂' : Digest} (h₁ : Alike d₁ d₁') (h₂ : Alike d₂ d₂') :
    Alike (d₁.then d₂) (d₁'.then d₂') := by
  refine ⟨h₂.tracker, ?_, ?_, ?_⟩
  · simp only [Digest.then, h₁.ops, h₂.ops]
  · simp only [Digest.then, h₁.events, h₂.events]
  · simp only [Digest.then, List.length_append, h₁.skipped, h₂.skipped]

end Digest.Alike

theorem readLine_ok_of_ok {n n' : Nat} {text : Bytes} {events : List Event}
    (h : readLine n text = .ok events) : readLine n' text = .ok events :=
  Audit.readLine_eq_ok_iff.mpr (Audit.readLine_eq_ok_iff.mp h)

theorem readLine_error_of_error {n : Nat} {text : Bytes} {e : LineError}
    (h : readLine n text = .error e) (n' : Nat) : ∃ e', readLine n' text = .error e' := by
  cases hread : readLine n' text with
  | ok events =>
      rw [readLine_ok_of_ok hread] at h
      cases h
  | error e' => exact ⟨e', rfl⟩

/-- The numbers of the lines do not matter to a digest. -/
theorem digest_numberFrom (t : Tracker) (n n' : Nat) (l : List Bytes) :
    Digest.Alike (digest true t (numberFrom n l)) (digest true t (numberFrom n' l)) := by
  induction l generalizing t n n' with
  | nil => exact .refl _
  | cons text l ih =>
      cases hblank : isBlankLine text with
      | true =>
          rw [numberFrom_blank hblank, numberFrom_blank hblank]
          exact ih t (n + 1) (n' + 1)
      | false =>
          rw [numberFrom_cons hblank, numberFrom_cons hblank]
          cases hread : readLine (n + 1) text with
          | ok events =>
              rw [digest_cons_ok hread, digest_cons_ok (readLine_ok_of_ok hread)]
              exact .both (.refl _) (ih _ (n + 1) (n' + 1))
          | error e =>
              obtain ⟨e', hread'⟩ := readLine_error_of_error hread (n' + 1)
              rw [digest_cons_skip hread, digest_cons_skip hread']
              exact .both ⟨rfl, rfl, rfl, rfl⟩ (ih t (n + 1) (n' + 1))

/-- If no line ends a digest, it does not matter whether refused lines would be skipped. -/
theorem digest_eq_of_fatal_eq_none {skip : Bool} {t : Tracker} {l : List (Nat × Bytes)}
    (h : (digest skip t l).fatal = none) : digest skip t l = digest true t l := by
  induction l generalizing t with
  | nil => rfl
  | cons x l ih =>
      obtain ⟨line, text⟩ := x
      cases hread : readLine line text with
      | ok events =>
          rw [digest_cons_ok hread] at h ⊢
          rw [digest_cons_ok hread, ih h]
      | error e =>
          cases skip with
          | true => rfl
          | false =>
              rw [digest_cons_fatal hread] at h
              cases h

/-- The digest of a journal that is cut behind a line feed goes on with its second part where the
first one has stopped. -/
theorem digestSource_split (t : Tracker) {a : Bytes} (hcut : a = [] ∨ isComplete a = true)
    (b : Bytes) :
    Digest.Alike
      ((digestSource true t ⟨a, none⟩).then
        (digestSource true (digestSource true t ⟨a, none⟩).tracker ⟨b, none⟩))
      (digestSource true t ⟨a ++ b, none⟩) := by
  have hlines : (⟨a ++ b, none⟩ : Source).numberedLines =
      (⟨a, none⟩ : Source).numberedLines ++ numberFrom (splitLines a).length
        (splitLines b) := by
    have happend := numberFrom_append 0 (splitLines a) (splitLines b)
    rw [← Audit.splitLines_append hcut, Nat.zero_add] at happend
    exact happend
  unfold digestSource
  rw [hlines, digest_append (digest_skip_fatal t _)]
  exact .both (.refl _) (digest_numberFrom _ 0 _ (splitLines b))

/-! ## Ingests that report -/

/-- What an ingest reports. -/
theorem ingestJournal_report {σ : Type} [GraphStore σ] {c : Config} {t : Tracker} {s : σ}
    {source : Source} {report : Report} (h : (ingestJournal c t s source).result = .ok report) :
    let d := digestSource c.skipInvalid t source
    report.lines = source.lines.length ∧ report.events = d.events ∧
      report.invalid = d.skipped.length ∧ report.tracker = d.tracker.stats ∧
        report.ops = (offer s (referenceBatches c t source)).accepted.flatten.length := by
  unfold referenceBatches
  unfold ingestJournal at h
  simp only at h
  split at h
  · cases h
  · split at h
    · cases h
    · split at h
      · cases h
      · cases h
        exact ⟨rfl, rfl, rfl, rfl, rfl⟩

/-- A session whose ingest reports has digested the whole journal, and applied all of its operations
to the graph.  No line has ended the digest, so it is the one that would skip such a line. -/
theorem Exchanges.of_ok {σ : Type} [MemoryStore σ] {s s' : Session σ} {bytes : Bytes}
    {offered accepted : List (List Op)} {report : Report}
    (h : Exchanges s (.ingest ⟨bytes, none⟩ offered accepted (.ok report)) s')
    (hc : s.config.validate = .ok ()) :
    let d := digestSource true s.tracker ⟨bytes, none⟩
    s'.config = s.config ∧ s'.tracker = d.tracker ∧
      (∃ g n, (MemoryStore.graph s.store).applyAll d.ops = .ok g ∧
        MemoryStore.graph s'.store = { g with batches := n }) ∧
      report = ⟨(splitLines bytes).length, d.events, d.skipped.length,
        d.ops.length, report.batches, d.tracker.stats⟩ := by
  have hphase : s.phase = .running := by
    refine Decidable.byContradiction fun hnot => ?_
    obtain ⟨_, _, hrefused, _⟩ := h.of_not_running hnot
    cases hrefused
  obtain ⟨g, happly, hgraph⟩ := h.graph_eq fun _ => hc
  have hconfig := (h.phase_of_running hphase).1
  obtain ⟨stages, result, hagrees, hblamed, hresult, _, haccepted, hanswer, hsettle⟩ :=
    h.of_running hphase hc
  obtain ⟨rfl⟩ : result = .ok report := by
    cases result with
    | error e => cases hanswer
    | ok r => exact congrArg Except.ok (Except.ok.inj hanswer)
  obtain ⟨htracker, hall⟩ := hagrees.of_result_ok hblamed hc hresult
  obtain ⟨hreport, _⟩ := hagrees.result_eq hc (hagrees.batchFits_of_ok hresult) rfl hresult
  obtain ⟨hrefusal, hfatal, _⟩ := ingestJournal_ok hreport.symm
  obtain ⟨hlines, hevents, hinvalid, hstats, hops⟩ := ingestJournal_report hreport.symm
  rw [accepted_of_accepted hrefusal, referenceBatches] at hops
  have hflat := hops.trans (congrArg List.length (flatten_batches hfatal s.config.batchSize))
  have hskip : digestSource s.config.skipInvalid s.tracker ⟨bytes, none⟩ =
      digestSource true s.tracker ⟨bytes, none⟩ := digest_eq_of_fatal_eq_none hfatal
  rw [hskip] at htracker hall hevents hinvalid hstats hflat
  rw [Exchange.accepted, ← haccepted, hall] at happly
  refine ⟨hconfig, ?_, ⟨g, _, happly, hgraph⟩, ?_⟩
  · rw [← hsettle]
    exact htracker
  · cases report
    simp only at hlines hevents hinvalid hstats hflat ⊢
    rw [hlines, hevents, hinvalid, hstats, hflat]
    rfl

/-- An ingest that reports, as a schedule lets its stages go on. -/
theorem Exchanges.of_schedule_ok {σ : Type} [GraphStore σ] {s : Session σ}
    (hphase : s.phase = .running) (source : Source) (schedule : List Stages.Stage) (report : Report)
    (hend :
      ((Stages.start s.config s.tracker s.store source).follow s.config source.failure
        schedule).result.bind Except.toOption = some report) :
    let stages := (Stages.start s.config s.tracker s.store source).follow s.config source.failure
      schedule
    Exchanges s (.ingest source stages.offered stages.accepted (.ok report))
      (s.settle stages (.ok report)) := by
  obtain ⟨result, hresult, hreport⟩ := Option.bind_eq_some_iff.mp hend
  cases result with
  | error e => cases hreport
  | ok r =>
      cases hreport
      refine Exchanges.ingest source ?_ (Stages.steps_follow _ schedule) hresult
      rw [admits_ingest, hphase]
      rfl

/-! ## One ingest and two -/

/-- Two sessions begin with one tracker and one graph.  The first ingests a text and then another,
and the second ingests both at once, where the first text is empty or ends in a line feed.  If they
all report, the sessions come to the same tracker and to graphs with the same nodes and relations,
and the reports of the first add up to that of the second.  Only the batches are counted apart. -/
theorem ingest_split {σ : Type} [MemoryStore σ] {s s₁ s₂ t t₁ : Session σ} {a b : Bytes}
    {offered₁ offered₂ offered accepted₁ accepted₂ accepted : List (List Op)}
    {report₁ report₂ report : Report}
    (hs : s.config.validate = .ok ()) (ht : t.config.validate = .ok ())
    (htracker : t.tracker = s.tracker)
    (hgraph : MemoryStore.graph t.store = MemoryStore.graph s.store)
    (hcut : a = [] ∨ a.getLast? = some lineFeed)
    (h₁ : Exchanges s (.ingest ⟨a, none⟩ offered₁ accepted₁ (.ok report₁)) s₁)
    (h₂ : Exchanges s₁ (.ingest ⟨b, none⟩ offered₂ accepted₂ (.ok report₂)) s₂)
    (h : Exchanges t (.ingest ⟨a ++ b, none⟩ offered accepted (.ok report)) t₁) :
    t₁.tracker = s₂.tracker ∧
      (MemoryStore.graph t₁.store).nodes = (MemoryStore.graph s₂.store).nodes ∧
      (MemoryStore.graph t₁.store).relations = (MemoryStore.graph s₂.store).relations ∧
      report = ⟨report₁.lines + report₂.lines, report₁.events + report₂.events,
        report₁.invalid + report₂.invalid, report₁.ops + report₂.ops, report.batches,
        report₂.tracker⟩ := by
  have hcomplete : a = [] ∨ isComplete a = true := hcut.imp_right beq_iff_eq.mpr
  obtain ⟨hconfig, htracker₁, ⟨g₁, n₁, happly₁, hgraph₁⟩, hreport₁⟩ :=
    h₁.of_ok hs
  rw [← hconfig] at hs
  obtain ⟨_, htracker₂, ⟨g₂, n₂, happly₂, hgraph₂⟩, hreport₂⟩ := h₂.of_ok hs
  obtain ⟨_, htracker', ⟨g, n, happly, hgraph'⟩, hreport⟩ := h.of_ok ht
  have halike := digestSource_split s.tracker hcomplete b
  rw [← htracker₁] at halike
  rw [htracker] at htracker' happly hreport
  have hend : t₁.tracker = s₂.tracker := by
    rw [htracker', halike.tracker, htracker₂]
    rfl
  -- The graph behind both parts is the one behind their operations as one list.
  have happly' : ∃ m, (MemoryStore.graph s.store).applyAll
      (digestSource true s.tracker ⟨a ++ b, none⟩).ops = .ok m ∧
        m = { g₂ with batches := m.batches } := by
    refine ⟨{ g₂ with batches := g₁.batches }, ?_, rfl⟩
    rw [hgraph₁] at happly₂
    have hsecond := Memory.applyAll_withBatches happly₂ g₁.batches
    rw [halike.ops]
    exact Memory.applyAll_append_ok.mpr ⟨g₁, happly₁, hsecond⟩
  obtain ⟨m, hm, hsame⟩ := happly'
  rw [hgraph, hm] at happly
  cases happly
  refine ⟨hend, ?_, ?_, ?_⟩
  · rw [hgraph', hgraph₂, hsame]
  · rw [hgraph', hgraph₂, hsame]
  · rw [hreport, hreport₁, hreport₂, ← htracker₂, ← htracker', hend,
      halike.events, halike.ops, halike.skipped, Audit.splitLines_append hcomplete,
      List.length_append]
    simp only [Digest.then, List.length_append]

/-- A process, and another one behind a line that is refused.  In two parts they are two batches,
and at once they are one. -/
theorem ingest_split_processes :
    ∃ (s s₁ s₂ t₁ : Session Memory)
      (offered₁ offered₂ offered accepted₁ accepted₂ accepted : _)
      (report₁ report₂ report : Report),
      Exchanges s (.ingest ⟨sighting "P", none⟩ offered₁ accepted₁ (.ok report₁)) s₁ ∧
      Exchanges s₁ (.ingest ⟨[91, 10] ++ sighting "Q", none⟩ offered₂ accepted₂
        (.ok report₂)) s₂ ∧
      Exchanges s (.ingest ⟨sighting "P" ++ ([91, 10] ++ sighting "Q"), none⟩ offered accepted
        (.ok report)) t₁ ∧
      t₁.tracker = s₂.tracker ∧ t₁.store.nodes = s₂.store.nodes ∧
        t₁.store.nodes.size = 2 ∧
      report₁.batches + report₂.batches = 2 ∧
      report = ⟨3, 2, 1, 2, 1, ⟨2, 2, 2⟩⟩ := by
  let c : Config := ⟨.simple, 4, true⟩
  let schedule := (List.replicate 24 [Stages.Stage.reader, .parser 0, .engine, .keeper]).flatten
  let s : Session Memory := (idle c {}).start.1
  let run (s : Session Memory) (bytes : Bytes) :=
    (Stages.start s.config s.tracker s.store ⟨bytes, none⟩).follow s.config none schedule
  let s₁ := s.settle (run s (sighting "P")) (.ok ⟨1, 1, 0, 1, 1, ⟨1, 1, 1⟩⟩)
  have h₁ :=
    Exchanges.of_schedule_ok (s := s) (by decide +kernel) ⟨sighting "P", none⟩ schedule
      ⟨1, 1, 0, 1, 1, ⟨1, 1, 1⟩⟩ (by decide +kernel)
  have h₂ :=
    Exchanges.of_schedule_ok (s := s₁) (by decide +kernel) ⟨[91, 10] ++ sighting "Q", none⟩
      schedule ⟨2, 1, 1, 1, 1, ⟨2, 2, 2⟩⟩ (by decide +kernel)
  have h := Exchanges.of_schedule_ok (s := s) (by decide +kernel)
    ⟨sighting "P" ++ ([91, 10] ++ sighting "Q"), none⟩ schedule
    ⟨3, 2, 1, 2, 1, ⟨2, 2, 2⟩⟩ (by decide +kernel)
  obtain ⟨htracker, hnodes, _, _⟩ :=
    ingest_split rfl rfl rfl rfl (.inr (by decide +kernel)) h₁ h₂ h
  exact ⟨_, _, _, _, _, _, _, _, _, _, _, _, _, h₁, h₂, h, htracker,
    hnodes, by decide +kernel, rfl, rfl⟩

end Session

end Lineage

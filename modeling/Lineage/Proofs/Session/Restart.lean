import Lineage.Proofs.Session.Invariant

/-!
# Ids across sessions

Each start begins with a new tracker, whose ids begin with zero again, over a store that keeps what
it has.  Until the next start the nodes that are committed have the ids from the counter on
(`History.created_eq`).  So no id is used twice, and no record of the store is overwritten, exactly
if there are no two sessions that both commit a node (`created_nodup_iff`).  When a session that has
committed a node is started again, the next node that is committed takes the place of its first one
(`restart_overwrites`).
-/

namespace Lineage.Session

open Lineage.Graph (Memory MemoryStore Node NodeId Op)
open Lineage.Graph.Cypher (creates)

variable {σ : Type}

/-- The nodes that a call has created in the store. -/
def Exchange.created (x : Exchange) : List NodeId := x.accepted.flatten.flatMap creates

/-- The nodes that some calls have created in the store, in order. -/
def created (xs : List Exchange) : List NodeId := xs.flatMap Exchange.created

theorem created_append (xs ys : List Exchange) : created (xs ++ ys) = created xs ++ created ys :=
  List.flatMap_append

theorem created_singleton (x : Exchange) : created [x] = x.created :=
  List.flatMap_singleton ..

theorem created_start_cons (answer : Except SessionError Unit) (xs : List Exchange) :
    created (.start answer :: xs) = created xs := rfl

/-- What calls create is what the operations create that they commit. -/
theorem created_eq_flatMap (xs : List Exchange) :
    created xs = (xs.flatMap Exchange.accepted).flatten.flatMap creates := by
  induction xs with
  | nil => rfl
  | cons x xs ih =>
      rw [List.flatMap_cons, List.flatten_append, List.flatMap_append, ← ih]
      exact List.flatMap_cons

/-! ## The last start -/

section History

variable [MemoryStore σ] {s s' : Session σ} {x : Exchange} {xs : List Exchange}

/-- Behind the last start that succeeded, if there is one, no start succeeds. -/
theorem History.last_start (h : History s xs s') :
    Exchange.start (.ok ()) ∉ xs ∨
      ∃ before after s₁ s₂, xs = before ++ .start (.ok ()) :: after ∧
        History s before s₁ ∧
        Exchanges s₁ (.start (.ok ())) s₂ ∧ History s₂ after s' ∧
          Exchange.start (.ok ()) ∉ after := by
  induction h with
  | nil => exact .inl List.not_mem_nil
  | @snoc xs x s' s'' hbefore hx ih =>
      by_cases hstart : x = .start (.ok ())
      · subst hstart
        exact .inr ⟨xs, [], s', s'', rfl, hbefore, hx, .nil, List.not_mem_nil⟩
      · have hlast : Exchange.start (.ok ()) ∉ [x] := fun hmem =>
          hstart (List.mem_singleton.mp hmem).symm
        rcases ih with hnone | ⟨before, after, s₁, s₂, rfl, h₁, hx₁, h₂, hnone⟩
        · refine .inl fun hmem => ?_
          exact (List.mem_append.mp hmem).elim hnone hlast
        · refine .inr ⟨before, after ++ [x], s₁, s₂, by simp, h₁, hx₁,
            h₂.snoc hx, fun hmem => ?_⟩
          exact (List.mem_append.mp hmem).elim hnone hlast

/-- A start that succeeds begins with a counter at zero. -/
theorem Exchanges.nextId_of_start (h : Exchanges s (.start (.ok ())) s') :
    s'.tracker.roster.nextId = 0 := by
  obtain ⟨hanswer, rfl⟩ := h.start_eq
  rcases s.start_cases with ⟨e, he, _⟩ | ⟨_, _, heq⟩
  · rw [he] at hanswer
    cases hanswer
  · rw [heq]

/-! ## Ids of one session -/

/-- The nodes that a call creates have the next ids of the session's counter. -/
theorem Exchanges.created_eq (hx : Exchanges s x s') (hsound : Sound s)
    (hstart : x ≠ .start (.ok ())) :
    (s.phase ≠ .running → x.created = []) ∧
      ∃ n, x.created = List.range' s.tracker.roster.nextId n ∧
        (s'.phase = .running → s'.tracker.roster.nextId = s.tracker.roster.nextId + n) := by
  cases x with
  | start answer =>
      obtain ⟨hanswer, rfl⟩ := hx.start_eq
      refine ⟨fun _ => rfl, 0, rfl, fun _ => ?_⟩
      rcases s.start_cases with ⟨_, _, heq⟩ | ⟨hok, _⟩
      · rw [heq]
        rfl
      · exact absurd (congrArg Exchange.start (hanswer.trans hok)) hstart
  | stop answer =>
      cases hx
      refine ⟨fun _ => rfl, 0, rfl, fun _ => ?_⟩
      rcases s.stop_cases with ⟨_, _, heq⟩ | ⟨_, heq⟩ <;> rw [heq] <;> rfl
  | ingest source offered accepted answer =>
      by_cases hphase : s.phase = .running
      · refine ⟨fun hnot => absurd hphase hnot, ?_⟩
        obtain ⟨es, hprefix, hall⟩ := hx.exists_run hphase (hsound.valid hphase)
        obtain ⟨n, hcreated⟩ := Tracker.exists_creates_eq hprefix
        refine ⟨n, hcreated, fun hgoes => ?_⟩
        obtain ⟨m, hnumbers, hnext⟩ := s.tracker.run_numbers es
        obtain ⟨htracker, hcommitted⟩ := hall hgoes
        rw [hcommitted, hnumbers] at hcreated
        have hlength := congrArg List.length hcreated
        rw [List.length_range', List.length_range'] at hlength
        rw [htracker, hnext, hlength]
      · obtain ⟨_, rfl, _, rfl⟩ := hx.of_not_running hphase
        exact ⟨fun _ => rfl, 0, rfl, fun hgoes => absurd hgoes hphase⟩

/-- Until the next start that succeeds, the nodes that are created have the ids from the counter
on. -/
theorem History.created_eq (h : History s xs s') (hsound : Sound s)
    (hstart : Exchange.start (.ok ()) ∉ xs) :
    Sound s' ∧ ∃ n, created xs = List.range' s.tracker.roster.nextId n ∧
      (s'.phase = .running → s'.tracker.roster.nextId = s.tracker.roster.nextId + n) := by
  induction h with
  | nil => exact ⟨hsound, 0, rfl, fun _ => rfl⟩
  | @snoc xs x s' s'' _ hx ih =>
      obtain ⟨hsound', n, hcreated, hnext⟩ :=
        ih fun hmem => hstart (List.mem_append_left _ hmem)
      have hlast : x ≠ .start (.ok ()) := fun heq =>
        hstart (List.mem_append_right _ (List.mem_singleton.mpr heq.symm))
      obtain ⟨hidle, m, hmore, hnext'⟩ := hx.created_eq hsound' hlast
      refine ⟨hsound'.exchange hx, ?_⟩
      rw [created_append, created_singleton]
      by_cases hphase : s'.phase = .running
      · refine ⟨n + m, ?_, fun hgoes => ?_⟩
        · rw [hcreated, hmore, hnext hphase, List.range'_append_1]
        · rw [hnext' hgoes, hnext hphase, Nat.add_assoc]
      · refine ⟨n, ?_, fun hgoes => ?_⟩
        · rw [hidle hphase, List.append_nil, hcreated]
        · exact absurd hgoes (hx.of_start_failed hphase hlast).1

/-- If a session's counter is at zero, the first node that is created has the id zero. -/
theorem History.zero_or_nil (h : History s xs s') (hsound : Sound s)
    (hzero : s.phase = .running → s.tracker.roster.nextId = 0) :
    Sound s' ∧ (0 ∈ created xs ∨
      created xs = [] ∧ (s'.phase = .running → s'.tracker.roster.nextId = 0)) := by
  induction h with
  | nil => exact ⟨hsound, .inr ⟨rfl, hzero⟩⟩
  | @snoc xs x s' s'' _ hx ih =>
      obtain ⟨hsound', hfirst⟩ := ih
      refine ⟨hsound'.exchange hx, ?_⟩
      rw [created_append, created_singleton]
      rcases hfirst with hmem | ⟨hnil, hzero'⟩
      · exact .inl (List.mem_append_left _ hmem)
      · rw [hnil, List.nil_append]
        by_cases hstart : x = .start (.ok ())
        · subst hstart
          exact .inr ⟨rfl, fun _ => hx.nextId_of_start⟩
        · obtain ⟨hidle, n, hmore, hnext⟩ := hx.created_eq hsound' hstart
          by_cases hphase : s'.phase = .running
          · rw [hzero' hphase] at hmore hnext
            cases n with
            | zero => exact .inr ⟨hmore, hnext⟩
            | succ n =>
                rw [hmore]
                exact .inl (List.mem_cons_self ..)
          · exact .inr ⟨hidle hphase, fun hgoes =>
              absurd hgoes (hx.of_start_failed hphase hstart).1⟩

theorem History.zero_mem_created (h : History s xs s') (hsound : Sound s)
    (hzero : s.tracker.roster.nextId = 0) (hne : created xs ≠ []) : 0 ∈ created xs :=
  (h.zero_or_nil hsound fun _ => hzero).2.resolve_right fun hnil => hne hnil.1

end History

/-! ## Sessions that commit nodes -/

section Graph

variable [MemoryStore σ] {c : Config} {store : σ} {s s' : Session σ} {xs : List Exchange}

/-- Some calls apply to the graph what they commit, and nothing else. -/
theorem History.graph_eq (h : History s xs s') (hsound : Sound s) :
    Sound s' ∧ ∃ g n, (MemoryStore.graph s.store).applyAll
      (xs.flatMap Exchange.accepted).flatten = .ok g ∧
      MemoryStore.graph s'.store = { g with batches := n } := by
  induction h with
  | nil => exact ⟨hsound, _, _, rfl, rfl⟩
  | @snoc xs x s' s'' _ hx ih =>
      obtain ⟨hsound', g, n, happly, hgraph⟩ := ih
      obtain ⟨g', hmore, hgraph'⟩ := hx.graph_eq hsound'.valid
      refine ⟨hsound'.exchange hx, { g' with batches := g.batches }, _, ?_, hgraph'⟩
      rw [hgraph] at hmore
      rw [List.flatMap_append, List.flatMap_singleton, List.flatten_append]
      exact Memory.applyAll_append_ok.mpr
        ⟨g, happly, Memory.applyAll_withBatches hmore g.batches⟩

/-- Two sessions that both commit a node use an id twice. -/
theorem not_nodup_of_restart (h : History (idle c store) xs s) {before after : List Exchange}
    (hxs : xs = before ++ .start (.ok ()) :: after) (hbefore : created before ≠ [])
    (hafter : created after ≠ []) : ¬ (created xs).Nodup := by
  rw [hxs] at h
  obtain ⟨s₁, h₁, hrest⟩ := h.append_inv
  obtain ⟨s₂, hstart, h₂⟩ := hrest.cons_inv
  have hsound₁ : Sound s₁ := .history h₁
  have hfirst := h₁.zero_mem_created (.history .nil) rfl hbefore
  have hagain := h₂.zero_mem_created (hsound₁.exchange hstart) hstart.nextId_of_start hafter
  rw [hxs, created_append, created_start_cons]
  intro hnodup
  exact (List.nodup_append.mp hnodup).2.2 0 hfirst 0 hagain rfl

/-- No id is used twice if no two sessions commit a node. -/
theorem nodup_created {xs : List Exchange} {s : Session σ} (h : History (idle c store) xs s)
    (hone : ∀ before after, xs = before ++ .start (.ok ()) :: after →
      created before = [] ∨ created after = []) : (created xs).Nodup := by
  rcases h.last_start with hnone | ⟨before, after, s₁, s₂, hxs, h₁, hx, h₂, hnone⟩
  · obtain ⟨_, n, hcreated, _⟩ := h.created_eq (.history .nil) hnone
    rw [hcreated]
    exact List.nodup_range' ..
  · have hlt : before.length < xs.length := by
      rw [hxs]
      simp
    rw [hxs, created_append, created_start_cons]
    rcases hone before after hxs with hnil | hnil
    · obtain ⟨_, n, hcreated, _⟩ := h₂.created_eq ((Sound.history h₁).exchange hx) hnone
      rw [hnil, hcreated]
      exact List.nodup_range' ..
    · rw [hnil, List.append_nil]
      refine nodup_created h₁ fun before' after' heq => ?_
      have hsplit := hone before' (after' ++ .start (.ok ()) :: after) (by rw [hxs, heq]; simp)
      refine hsplit.imp_right fun hnil' => ?_
      rw [created_append] at hnil'
      exact (List.append_eq_nil_iff.mp hnil').1
termination_by xs.length
decreasing_by exact hlt

/-- What the store of a session that began with an empty graph holds is what was created. -/
theorem contains_graph_iff (h : History (idle c store) xs s) (hnew : MemoryStore.graph store = {})
    (id : NodeId) : (MemoryStore.graph s.store).nodes.contains id = true ↔ id ∈ created xs := by
  obtain ⟨_, g, n, happly, hgraph⟩ := h.graph_eq (.history .nil)
  have hcontains := Memory.contains_applyAll happly id
  have hempty : (MemoryStore.graph (idle c store).store).nodes.contains id = false := by
    rw [idle, hnew]
    rfl
  rw [hempty, ← created_eq_flatMap] at hcontains
  rw [hgraph]
  exact hcontains.trans (or_iff_right Bool.false_ne_true)

/-- Exactly if no two sessions commit a node, no call creates a node that the store holds already.
Then every record keeps its identity, and every relation stays what it is. -/
theorem created_nodup_iff (h : History (idle c store) xs s) (hnew : MemoryStore.graph store = {}) :
    ((created xs).Nodup ↔ ∀ before after, xs = before ++ .start (.ok ()) :: after →
      created before = [] ∨ created after = []) ∧
    ((created xs).Nodup → ∀ before after s₁, xs = before ++ after →
      History (idle c store) before s₁ → History s₁ after s →
        (∀ id ∈ created after, (MemoryStore.graph s₁.store).nodes.contains id = false) ∧
        (∀ id p, (MemoryStore.graph s₁.store).nodes.get? id = some p →
          ∃ p', (MemoryStore.graph s.store).nodes.get? id = some p' ∧ p'.uuid = p.uuid) ∧
        (MemoryStore.graph s₁.store).relations <+: (MemoryStore.graph s.store).relations) := by
  refine ⟨⟨fun hnodup before after hxs => ?_, nodup_created h⟩,
    fun hnodup before after s₁ hxs h₁ h₂ => ?_⟩
  · by_cases hbefore : created before = []
    · exact .inl hbefore
    · refine .inr (Classical.byContradiction fun hafter => ?_)
      exact not_nodup_of_restart h hxs hbefore hafter hnodup
  · rw [hxs, created_append] at hnodup
    have hfresh : ∀ id ∈ created after, id ∉ created before := fun id hafter hbefore =>
      (List.nodup_append.mp hnodup).2.2 id hbefore id hafter rfl
    obtain ⟨_, g, n, happly, hgraph⟩ := h₂.graph_eq (.history h₁)
    refine ⟨fun id hid => ?_, fun id p hp => ?_, ?_⟩
    · refine Bool.eq_false_iff.mpr fun hheld => ?_
      exact hfresh id hid ((contains_graph_iff h₁ hnew id).mp hheld)
    · have hheld : (MemoryStore.graph s₁.store).nodes.contains id = true := by
        simp [hp]
      have hkept : id ∉ created after := fun hid =>
        hfresh id hid ((contains_graph_iff h₁ hnew id).mp hheld)
      rw [created_eq_flatMap] at hkept
      rw [hgraph]
      exact Memory.uuid_applyAll happly hkept hp
    · have hrelations := Memory.relations_applyAll happly
      rw [hgraph]
      exact hrelations

/-- A session that is started again and commits nothing more. -/
theorem created_nodup_iff_twice :
    ∃ (c : Config) (xs : List Exchange) (s : Session Memory),
      History (idle c {}) xs s ∧ created xs = [0] ∧ xs.length = 4 ∧
        ∀ before after, xs = before ++ .start (.ok ()) :: after →
          created before = [] ∨ created after = [] := by
  let c : Config := ⟨.simple, 4, true⟩
  let schedule := (List.replicate 12 [Stages.Stage.reader, .parser 0, .engine, .keeper]).flatten
  have hfirst : History (idle c ({} : Memory)) _ _ := .snoc .nil .start
  have hx :=
    Exchanges.of_schedule (s := (idle c ({} : Memory)).start.1) rfl ⟨sighting "P", none⟩
      schedule (by decide +kernel)
  have h := ((hfirst.snoc hx).snoc .stop).snoc .start
  refine ⟨c, _, _, h, ?_, rfl, (created_nodup_iff h rfl).1.mp ?_⟩
  · decide +kernel
  · decide +kernel

/-- Two sessions over one store: the first record of the second one takes the place of that of the
first one. -/
theorem restart_overwrites :
    let first :=
      ((idle ⟨.simple, 4, true⟩ ({} : Memory)).start.1.ingest ⟨sighting "P", none⟩).1
    let second := (first.stop.1.start.1.ingest ⟨sighting "Q", none⟩).1
    first.store.nodes.get? 0 = some ⟨0, "P", 7, ""⟩ ∧
      second.store.nodes.get? 0 = some ⟨0, "Q", 7, ""⟩ ∧ second.store.nodes.size = 1 := by
  decide +kernel

end Graph

end Lineage.Session

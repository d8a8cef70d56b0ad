import Lineage.Proofs.Session.Moves
import Lineage.Session.Threads
import Mathlib.Data.List.Nodup

/-!
# Posts and preparations

Every role belongs to one stage (`Stages.Stage.eq_of_mem_posts`), and a session takes it once,
before it starts that stage (`inOrder_preparations`).

A step of a stage changes where that stage stands and nothing of where the others do
(`Stages.step_alike`).
-/

namespace Lineage.Session

open Lineage.Graph (GraphStore)
open Stages (Stage)

/-! ## Posts -/

namespace Stages.Stage

variable {stage stage' : Stage} {post : Post}

/-- A role belongs to one stage. -/
theorem eq_of_mem_posts (h : post ∈ stage.posts) (h' : post ∈ stage'.posts) :
    stage = stage' := by
  cases stage <;> cases stage' <;> simp [posts] at h h' <;> aesop

theorem nodup_posts (stage : Stage) : stage.posts.Nodup := by cases stage <;> simp [posts]

theorem begin_mem_preparations : .begin stage ∈ stage'.preparations ↔ stage = stage' := by
  simp [preparations]

theorem take_mem_preparations : .take post ∈ stage.preparations ↔ post ∈ stage.posts := by
  simp [preparations]

/-- A preparation is for one stage. -/
theorem eq_of_mem_preparations {p : Preparation} (h : p ∈ stage.preparations)
    (h' : p ∈ stage'.preparations) :
    stage = stage' := by
  cases p with
  | take post => exact eq_of_mem_posts (take_mem_preparations.mp h) (take_mem_preparations.mp h')
  | begin other => exact (begin_mem_preparations.mp h).symm.trans (begin_mem_preparations.mp h')

end Stages.Stage

/-! ## Preparations -/

/-- No preparation comes twice, and each role is taken before its stage is started. -/
def InOrder : List Preparation → Prop
  | [] => True
  | p :: rest =>
      p ∉ rest ∧ (∀ post stage, p = .take post → post ∈ stage.posts →
        .begin stage ∈ rest) ∧ InOrder rest

/-- Where a role is still to be taken, its stage is still to be started. -/
theorem InOrder.begin_mem {setup : List Preparation} (h : InOrder setup) {post : Post}
    {stage : Stage} (htake : .take post ∈ setup) (hpost : post ∈ stage.posts) :
    .begin stage ∈ setup := by
  induction setup with
  | nil => cases htake
  | cons p rest ih =>
      obtain ⟨-, hbefore, hrest⟩ := h
      rcases List.mem_cons.mp htake with heq | hmem
      · exact List.mem_cons_of_mem _ (hbefore post stage heq.symm hpost)
      · exact List.mem_cons_of_mem _ (ih hrest hmem)

/-- The roles of a stage may be taken in any order before it is started. -/
theorem InOrder.takes {stage : Stage} {rest : List Preparation} (h : InOrder (.begin stage :: rest))
    {posts : List Post} (hnodup : posts.Nodup) (hposts : ∀ post ∈ posts, post ∈ stage.posts)
    (hnew : ∀ post ∈ posts, .take post ∉ rest) :
    InOrder (posts.map .take ++ .begin stage :: rest) := by
  induction posts with
  | nil => exact h
  | cons post posts ih =>
      obtain ⟨hother, hnodup⟩ := List.nodup_cons.mp hnodup
      rw [List.forall_mem_cons] at hposts hnew
      refine ⟨by simp [hother, hnew.1], fun post' stage' heq hpost' => ?_,
        ih hnodup hposts.2 hnew.2⟩
      cases heq
      rw [Stage.eq_of_mem_posts hpost' hposts.1]
      simp

theorem InOrder.stage {stage : Stage} {rest : List Preparation} (h : InOrder rest)
    (hnew : ∀ p ∈ stage.preparations, p ∉ rest) : InOrder (stage.preparations ++ rest) := by
  have hbegin : InOrder (.begin stage :: rest) :=
    ⟨hnew _ (Stage.begin_mem_preparations.mpr rfl), fun _ _ heq => (by cases heq), h⟩
  rw [Stage.preparations, List.append_assoc]
  exact hbegin.takes stage.nodup_posts (fun _ hpost => hpost)
    fun post hpost => hnew _ (Stage.take_mem_preparations.mpr hpost)

theorem inOrder_flatMap {stages : List Stage} (h : stages.Nodup) :
    InOrder (stages.flatMap Stage.preparations) := by
  induction stages with
  | nil => trivial
  | cons stage stages ih =>
      obtain ⟨hnew, hnodup⟩ := List.nodup_cons.mp h
      rw [List.flatMap_cons]
      refine (ih hnodup).stage fun p hp hmem => ?_
      obtain ⟨other, hother, hp'⟩ := List.mem_flatMap.mp hmem
      exact hnew (Stage.eq_of_mem_preparations hp hp' ▸ hother)

theorem nodup_threadStages (n : Nat) : (threadStages n).Nodup := by
  have hparsers : ((List.range n).map Stage.parser).Nodup :=
    List.nodup_range.map fun i j h => by cases h; rfl
  simp [threadStages, List.nodup_append, hparsers]

theorem inOrder_preparations (n : Nat) : InOrder (preparations n) :=
  inOrder_flatMap (nodup_threadStages n)

theorem take_mem_preparations_iff {n : Nat} {post : Post} :
    .take post ∈ preparations n ↔ ∃ stage ∈ threadStages n, post ∈ stage.posts := by
  simp only [preparations, List.mem_flatMap, Stage.take_mem_preparations]

theorem begin_mem_preparations_iff {n : Nat} {stage : Stage} :
    .begin stage ∈ preparations n ↔ stage ∈ threadStages n := by
  simp [preparations, List.mem_flatMap, Stage.begin_mem_preparations]

/-! ## Steps of one stage -/

namespace Stages

variable {σ : Type} {s s' : Stages σ} {stage : Stage} {c : Config} {failure : Option String}

/-- At most one stage stands elsewhere than before. -/
structure Alike (stage : Stage) (s s' : Stages σ) : Prop where
  reader : stage ≠ .reader → s'.reader = s.reader
  parser : ∀ i, stage ≠ .parser i → s'.parsers[i]? = s.parsers[i]?
  length : s'.parsers.length = s.parsers.length
  engine : stage ≠ .engine → s'.engineAt = s.engineAt ∧ s'.engine.finished = s.engine.finished
  keeper : stage ≠ .keeper → s'.keeper = s.keeper

theorem alike_refl (stage : Stage) (s : Stages σ) : Alike stage s s :=
  ⟨fun _ => rfl, fun _ _ => rfl, rfl, fun _ => ⟨rfl, rfl⟩, fun _ => rfl⟩

theorem Alike.hasEnded (h : Alike stage s s') {other : Stage} (hne : stage ≠ other) :
    s'.hasEnded other = s.hasEnded other := by
  cases other with
  | reader => simp only [Stages.hasEnded, h.reader hne]
  | parser i => simp only [Stages.hasEnded, h.parser i hne]
  | engine => simp only [Stages.hasEnded, (h.engine hne).1]
  | keeper => simp only [Stages.hasEnded, isClosed, h.keeper hne]

theorem ReaderMove.alike (h : ReaderMove c failure s s') : Alike .reader s s' := by
  cases h <;> exact ⟨fun hne => absurd rfl hne, fun _ _ => rfl, rfl,
    fun _ => ⟨rfl, rfl⟩, fun _ => rfl⟩

/-- One parser stands elsewhere. -/
theorem alike_set {i : Nat} {p : ParserPoint} (hparsers : s'.parsers = s.parsers.set i p)
    (hreader : s'.reader = s.reader) (hat : s'.engineAt = s.engineAt)
    (hengine : s'.engine = s.engine) (hkeeper : s'.keeper = s.keeper) : Alike (.parser i) s s' where
  reader _ := hreader
  parser j hj := by rw [hparsers, List.getElem?_set_ne fun heq => hj (congrArg Stage.parser heq)]
  length := by rw [hparsers, List.length_set]
  engine _ := ⟨hat, by rw [hengine]⟩
  keeper _ := hkeeper

theorem stepParser_alike {i : Nat} (h : s.stepParser c i = some s') : Alike (.parser i) s s' := by
  unfold stepParser at h
  split at h
  · split at h <;> cases h
    exact alike_set rfl rfl rfl rfl rfl
  · split at h <;> cases h
    exact alike_set rfl rfl rfl rfl rfl
  · cases h
  · cases h

theorem proceed_alike (s : Stages σ) : Alike .engine s s.proceed := by
  unfold proceed
  split <;> exact ⟨fun _ => rfl, fun _ _ => rfl, rfl, fun hne => absurd rfl hne, fun _ => rfl⟩

theorem EngineMove.alike (h : EngineMove c s s') : Alike .engine s s' := by
  have hproceed : ∀ s₁ : Stages σ, Alike .engine s s₁ → Alike .engine s s₁.proceed := by
    intro s₁ hs₁
    have hnext := s₁.proceed_alike
    exact ⟨fun hne => (hnext.reader hne).trans (hs₁.reader hne),
      fun i hne => (hnext.parser i hne).trans (hs₁.parser i hne), hnext.length.trans hs₁.length,
      fun hne => absurd rfl hne, fun hne => (hnext.keeper hne).trans (hs₁.keeper hne)⟩
  have hsame : ∀ s₁ : Stages σ, s₁.reader = s.reader → s₁.parsers = s.parsers →
      s₁.keeper = s.keeper →
      Alike .engine s s₁ := by
    intro s₁ hreader hparsers hkeeper
    exact ⟨fun _ => hreader, fun i _ => by rw [hparsers], by rw [hparsers],
      fun hne => absurd rfl hne, fun _ => hkeeper⟩
  cases h with
  | takeLine | raise | raiseCutOff => exact hproceed _ (hsame _ rfl rfl rfl)
  | drop | goOn => exact proceed_alike s
  | _ => exact hsame _ rfl rfl rfl

theorem KeeperMove.alike [GraphStore σ] (h : KeeperMove s s') : Alike .keeper s s' := by
  cases h <;> exact ⟨fun _ => rfl, fun _ _ => rfl, rfl, fun _ => ⟨rfl, rfl⟩,
    fun hne => absurd rfl hne⟩

/-- A step of a stage does not change where the others stand. -/
theorem step_alike [GraphStore σ] (h : s.step c failure stage = some s') : Alike stage s s' := by
  cases stage with
  | reader => exact (stepReader_move h).alike
  | parser i => exact stepParser_alike h
  | engine => exact (stepEngine_move h).alike
  | keeper => exact (stepKeeper_move h).alike

/-- A stage that takes a step is not at its end. -/
theorem not_hasEnded_of_step [GraphStore σ] (h : s.step c failure stage = some s') :
    s.hasEnded stage = false := by
  cases stage with
  | reader =>
      cases hat : s.reader <;> simp [Stages.hasEnded, hat]
      simp [step, stepReader, hat] at h
  | parser i =>
      cases hat : s.parsers[i]? with
      | none => simp [step, stepParser, hat] at h
      | some p => cases p <;> simp_all [step, stepParser, Stages.hasEnded, ParserPoint.isEnded]
  | engine =>
      rw [Stages.hasEnded]
      exact (stepEngine_move h).isOver_eq_false
  | keeper =>
      cases hat : s.keeper <;> simp [Stages.hasEnded, isClosed, hat]
      simp [step, stepKeeper, hat] at h

end Stages

end Lineage.Session

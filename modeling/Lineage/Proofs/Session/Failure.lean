import Lineage.Proofs.Audit.Reader
import Lineage.Proofs.Session.Schedule

/-!
# A journal that fails

When its source fails, an ingest fails.  The store was then offered some of the full batches of the
lines that could be read, in order, and none after a refusal; what is left over is never offered
(`failure_commits_full_batches`).

How many batches these are depends on when the flag goes up.  It goes up for one of three reasons
(`Blamed`), and each of them makes the ingest fail.  If no line and no batch was refused, it was the
reader who raised the flag, and the error is the one that a reader gives last.

Settings that ask for too much memory make an ingest panic before it begins, or its engine fall
(`failure_commits_full_batches_oversized`).
-/

namespace Lineage.Session

open Lineage.Audit (Event LineError Source Reader)
open Lineage.Graph (GraphStore Memory Op StoreError)
open Lineage.Json (Bytes)

/-- A line with a record in which a process is sighted and does nothing. -/
def sighting (uuid : String) : Bytes :=
  "\x7b\"event\":\"\",\"time\":0,\"pid\":7,\"ppid\":1,\"tid\":7,\"uid\":0,\"subjprocuuid\":\"".toUTF8.toList ++
    uuid.toUTF8.toList ++ "\",\"subjthruuid\":\"\",\"retval\":0\x7d\n".toUTF8.toList

/-- A digest that skips the lines that are refused is not ended by one. -/
theorem digest_skip_fatal (t : Tracker) (l : List (Nat × Bytes)) :
    (digest true t l).fatal = none := by
  induction l generalizing t with
  | nil => rfl
  | cons x l ih =>
      obtain ⟨line, text⟩ := x
      cases hread : Audit.readLine line text with
      | ok events =>
          rw [digest_cons_ok hread]
          exact ih _
      | error e =>
          rw [digest_cons_skip hread]
          exact ih t

/-! ## Refused batches -/

section Offer

variable {σ : Type} [GraphStore σ]

/-- A store that refused a batch did not accept all that it was offered. -/
theorem length_accepted_lt {s : σ} {l : List (List Op)} {e : StoreError}
    (h : (offer s l).refusal = some e) : (offer s l).accepted.length < l.length := by
  induction l generalizing s with
  | nil => cases h
  | cons batch l ih =>
      cases hx : GraphStore.execute s batch with
      | mk answer s' =>
          cases answer with
          | error e' =>
              rw [offer_cons_error hx]
              exact Nat.succ_pos _
          | ok _ =>
              rw [offer_cons_ok hx] at h ⊢
              exact Nat.succ_lt_succ (ih h)

/-- Nothing is offered behind a batch that is refused. -/
theorem eq_nil_of_refused {s s' : σ} {before after : List (List Op)} {batch : List Op}
    {e : StoreError} (h : offeredBatches s (before ++ batch :: after) = before ++ batch :: after)
    (hrefused : GraphStore.execute (offer s before).store batch = (.error e, s')) : after = [] := by
  induction before generalizing s with
  | nil =>
      simp only [offer] at hrefused
      simp only [List.nil_append, offeredBatches, hrefused] at h
      exact (List.cons.inj h).2.symm
  | cons first before ih =>
      cases hx : GraphStore.execute s first with
      | mk answer s' =>
          simp only [List.cons_append, offeredBatches, hx] at h
          cases answer with
          | error e' => exact absurd (List.cons.inj h).2.symm (by simp)
          | ok _ =>
              rw [offer_cons_ok hx] at hrefused
              exact ih (List.cons.inj h).2 hrefused

end Offer

/-! ## The flag -/

/-- Whether the reader could not read the journal to its end. -/
def ReaderPoint.gaveUp : ReaderPoint → Bool
  | .closing _ result | .ended result => !result.isOk
  | _ => false

namespace Stages

variable {σ : Type}

/-- The flag is up for a reason: a line has ended the ingest, the store has refused a batch, or the
reader has given up. -/
def Blamed (s : Stages σ) : Prop :=
  s.flag = true →
    s.engine.fatal.isSome = true ∨ s.keeper.refusal.isSome = true ∨ s.reader.gaveUp = true

namespace Blamed

variable {c : Config} {t : Tracker} {source : Source} {used : Nat} {ops : List Op}
variable {failure : Option String} {s s' : Stages σ}

theorem reader_move (h : Blamed s) (hmove : ReaderMove c failure s s') : Blamed s' := by
  have hkeep : ∀ {point : ReaderPoint} {jobs : List Job},
      (s.reader.gaveUp = true → point.gaveUp = true) →
        Blamed { s with jobs := jobs, reader := point } := by
    intro point jobs hgave hup
    exact (h hup).imp_right (.imp_right hgave)
  have hreading : s.reader.gaveUp = false → ∀ {point : ReaderPoint} {jobs : List Job},
      Blamed { s with jobs := jobs, reader := point } := by
    intro hnot point jobs
    refine hkeep fun hgave => ?_
    rw [hnot] at hgave
    cases hgave
  cases hmove with
  | raise => exact fun _ => .inr (.inr rfl)
  | closeAll hat => exact hkeep fun hgave => by rw [hat] at hgave; exact hgave
  | closeOne hat => exact hkeep fun hgave => by rw [hat] at hgave; exact hgave
  | finish hat => exact hkeep fun hgave => by rw [hat] at hgave; exact hgave
  | stopEarly hat => exact hreading (by rw [hat]; rfl)
  | reachEnd hat => exact hreading (by rw [hat]; rfl)
  | fail hat => exact hreading (by rw [hat]; rfl)
  | passBlank hat => exact hreading (by rw [hat]; rfl)
  | read hat => exact hreading (by rw [hat]; rfl)
  | hand hat => exact hreading (by rw [hat]; rfl)

theorem parser_move (h : Blamed s) (hmove : ParserMove c s s') : Blamed s' := by
  cases hmove <;> exact h

theorem proceed (h : Blamed s) : Blamed s.proceed := by
  rcases s.proceed_eq with ⟨_, heq⟩ | ⟨_, _, heq⟩ <;> rw [heq] <;> exact h

theorem engine_move (h : Blamed s) (haccount : Account c t source used ops s)
    (hmove : EngineMove c s s') : Blamed s' := by
  have hraise : s.Cuts c t source ops = False → Blamed { s with flag := true } := by
    intro hcuts _
    refine .inr (.inl (Option.isSome_iff_ne_none.mpr fun hrefusal => ?_))
    rw [← hcuts]
    exact haccount.cuts hrefusal
  cases hmove with
  | takeLine =>
      exact proceed (s := { s with parsed := _, engine := { s.engine with early := _ } }) h
  | drop => exact h.proceed
  | goOn => exact h.proceed
  | raise hat => exact proceed (s := { s with flag := true }) fun _ => .inl (haccount.raising hat)
  | raiseCutOff hat => exact (hraise (by simp only [Cuts, hat])).proceed
  | raiseLast hat => exact hraise (by simp only [Cuts, hat])
  | condemn _ hflag => exact fun _ => .inl rfl
  | _ => exact h

theorem keeper_move [GraphStore σ] (h : Blamed s) (hmove : KeeperMove s s') : Blamed s' := by
  have hnone : s.keeper.refusal = none → s.flag = true →
      s.engine.fatal.isSome = true ∨ s.reader.gaveUp = true := by
    intro hrefusal hup
    refine (h hup).imp_right fun hother => hother.resolve_left ?_
    rw [hrefusal]
    exact Bool.false_ne_true
  cases hmove with
  | take hat => exact fun hup => (hnone (by rw [hat]; rfl) hup).imp_right .inr
  | finish hat => exact fun hup => (hnone (by rw [hat]; rfl) hup).imp_right .inr
  | accept hat => exact fun hup => (hnone (by rw [hat]; rfl) hup).imp_right .inr
  | refuse => exact fun _ => .inr (.inl rfl)
  | raise => exact fun _ => .inr (.inl rfl)
  | close => exact fun _ => .inr (.inl rfl)

/-- The flag has a reason whatever steps were taken. -/
theorem steps [GraphStore σ] {store : σ} (hc : c.validate = .ok ())
    (hsteps : Steps c source.failure (Stages.start c t store source) s) : Blamed s := by
  induction hsteps with
  | refl => exact fun hup => by cases hup
  | snoc stage hbefore hstep ih =>
      obtain ⟨used, ops, haccount⟩ := (Agrees.steps hc hbefore).account
      cases step_move hstep with
      | reader hmove => exact ih.reader_move hmove
      | parser hmove => exact ih.parser_move hmove
      | engine hmove => exact ih.engine_move haccount hmove
      | keeper hmove => exact ih.keeper_move hmove

end Blamed

/-! ## The end of an ingest that fails -/

section Failure

variable [GraphStore σ] {c : Config} {t : Tracker} {source : Source} {store : σ} {s : Stages σ}
variable {reason : String}

/-- While lines that are refused are skipped, none ends the ingest. -/
theorem Agrees.fatal_eq_none (h : Agrees c t source store s) (hskip : c.skipInvalid = true) :
    s.engine.fatal = none := by
  obtain ⟨used, ops, haccount⟩ := h.account
  have hfatal := congrArg Digest.fatal haccount.digest_eq
  rw [hskip, digest_skip_fatal] at hfatal
  exact hfatal.symm

/-- A store that accepted all it was offered has refused nothing. -/
theorem Agrees.refusal_eq_none (h : Agrees c t source store s) (hall : s.accepted = s.offered) :
    s.keeper.refusal = none := by
  have hcommitted := h.committed
  cases hrefusal : s.keeper.refusal with
  | none => rfl
  | some e =>
      have hlt := length_accepted_lt (hcommitted.refusal_eq.trans hrefusal)
      rw [hcommitted.accepted_eq, hall] at hlt
      exact absurd hlt (Nat.lt_irrefl _)

/-- An ingest whose source fails ends with an error, and with that of the source if nothing was
refused and the engine has not fallen. -/
theorem Agrees.result_error (h : Agrees c t source store s) (hblamed : Blamed s)
    (hfailure : source.failure = some reason) {result : Except IngestError Report}
    (hresult : s.result = some result) :
    ∃ e, result = .error e ∧ (c.batchFits = true → c.skipInvalid = true →
      s.accepted = s.offered →
      e = .journal ⟨source.lines.length + 1, .source reason⟩) := by
  obtain ⟨handed, hflow⟩ := h.flow
  have hfits := hflow.reader
  cases comesTo_of_result hresult with
  | fallen hfallen =>
      refine ⟨_, rfl, fun hfits => ?_⟩
      rw [h.fallen.mp hfallen] at hfits
      cases hfits
  | refused _ hkeeper =>
      refine ⟨_, rfl, fun _ _ hall => ?_⟩
      cases hkeeper ▸ h.refusal_eq_none hall
  | unread _ _ hreader =>
      rw [hreader] at hfits
      have herror := hfits.2.1
      rw [Source.error?, hfailure] at herror
      cases herror
      exact ⟨_, rfl, fun _ _ _ => rfl⟩
  | condemned _ _ _ hfatal =>
      refine ⟨_, rfl, fun _ hskip _ => ?_⟩
      cases hfatal.symm.trans (h.fatal_eq_none hskip)
  | reported _ hkeeper hreader hfatal =>
      -- The reader stopped early, and nothing that is there can be the reason.
      rw [hreader] at hfits
      have hup : s.flag = true := by
        refine hfits.resolve_right fun hend => ?_
        rw [hfailure] at hend
        cases hend.1
      have hcause := hblamed hup
      rw [hfatal, hkeeper, hreader] at hcause
      rcases hcause with hfatal | hrefused | hgave
      · cases hfatal
      · cases hrefused
      · cases hgave

/-- Nothing was offered behind a batch that was refused. -/
theorem Committed.offeredBatches_eq (h : Committed c t source store s) :
    offeredBatches store s.offered = s.offered := by
  cases hrefusal : s.keeper.refusal with
  | none => exact offeredBatches_of_accepted (h.refusal_eq.trans hrefusal)
  | some e =>
      have hlast := h.last (by rw [hrefusal]; rfl) []
      rwa [List.append_nil] at hlast

end Failure

/-- An ingest of a journal that fails comes to an end and fails, whatever the order of its steps, if
its settings ask for no more memory than there can be.  At every moment the store was offered, in
order, some of the full batches of the lines before the failure, and none behind one that it
refused.  If nothing was refused at all, the error is the last item of the journal's reader. -/
theorem failure_commits_full_batches [GraphStore σ] {c : Config} (t : Tracker) (store : σ)
    {source : Source} {reason : String} (hc : c.validate = .ok ()) (hfits : c.fits = true)
    (hfailure : source.failure = some reason) :
    launch c t store source = .ok (start c t store source) ∧
    (∀ run : Nat → Stages σ, run 0 = start c t store source →
      ¬ ∀ n, ∃ stage, (run n).step c (some reason) stage = some (run (n + 1))) ∧
    ∀ s, Steps c (some reason) (start c t store source) s →
      (∃ full rest, (digestSource c.skipInvalid t source).ops = full.flatten ++ rest ∧
        (∀ batch ∈ full, batch.length = c.batchSize) ∧ rest.length < c.batchSize ∧
          s.offered <+: full) ∧
      offer store s.offered = ⟨s.store, s.accepted, s.keeper.refusal⟩ ∧
      (∀ before batch after e store', s.offered = before ++ batch :: after →
        GraphStore.execute (offer store before).store batch = (.error e, store') → after = []) ∧
      ((∀ stage, s.step c (some reason) stage = none) →
        ∃ e, s.result = some (.error e) ∧ (c.skipInvalid = true → s.accepted = s.offered →
          ∃ last : LineError, e = .journal last ∧
            last = ⟨source.lines.length + 1, .source reason⟩ ∧
              (Reader.new source).toList.1.getLast? = some (.error last))) := by
  obtain ⟨hrings, hbatch⟩ := Bool.and_eq_true_iff.mp hfits
  refine ⟨launch_eq_ok_iff.mpr ⟨hrings, rfl⟩, fun run _ => not_endless hc run,
    fun s hsteps => ?_⟩
  rw [← hfailure] at hsteps
  have hagrees := Agrees.steps hc hsteps
  have hcommitted := hagrees.committed
  refine ⟨?_, hcommitted.offer_eq, fun before batch after e store' heq hrefused => ?_,
    fun hstuck => ?_⟩
  · have hsize := (pos_of_validate hc).1
    refine ⟨_, _, (flatten_cut c.batchSize (digestSource c.skipInvalid t source).ops).symm,
      fun _ => length_of_mem_cut, length_cut_snd_lt hsize _, ?_⟩
    have hamong := hcommitted.among
    rw [referenceBatches, hfailure] at hamong
    rwa [batches_eq_full (.inl (by rfl))] at hamong
  · have hoffered := hcommitted.offeredBatches_eq
    rw [heq] at hoffered
    exact eq_nil_of_refused hoffered hrefused
  · rw [← hfailure] at hstuck
    obtain ⟨result, hresult⟩ := hagrees.exists_result hc hbatch hstuck
    obtain ⟨e, rfl, hjournal⟩ := hagrees.result_error (.steps hc hsteps) hfailure hresult
    refine ⟨e, hresult, fun hskip hall => ⟨_, hjournal hbatch hskip hall, rfl, ?_⟩⟩
    refine Reader.getLast?_toList_new ?_
    rw [Source.error?, hfailure]
    rfl

/-- A record and a line that is cut off: the record is committed, and the line is the failure's. -/
theorem failure_commits_full_batches_cut :
    ∃ (c : Config) (source : Source) (s : Stages Memory),
      c.validate = .ok () ∧ c.fits = true ∧ source.failure = some "gone" ∧
        Steps c (some "gone") (start c {} {} source) s ∧ s.offered.length = 1 ∧
          s.result = some (.error (.journal ⟨2, .source "gone"⟩)) := by
  let c : Config := ⟨.simple, 1, true⟩
  let source : Source := ⟨sighting "P" ++ (sighting "P").take 9, some "gone"⟩
  -- The reader waits with the failure until the record has come to the store.
  let schedule := List.replicate 2 Stage.reader ++
    (List.replicate 20 [Stage.parser 0, .engine, .keeper]).flatten ++
      (List.replicate 9 [Stage.reader, .parser 0, .engine, .keeper]).flatten
  let s := follow c (some "gone") (start c {} ({} : Memory) source) schedule
  have hend : s.result.isSome = true := by decide +kernel
  have hsteps := @steps_follow Memory _ c (some "gone") (start c {} {} source) schedule
  have hall : s.accepted = s.offered := by decide +kernel
  have hfits : c.fits = true := by decide
  have h := (failure_commits_full_batches {} ({} : Memory) rfl hfits rfl).2.2 s hsteps
  obtain ⟨_, hresult, hjournal⟩ := h.2.2.2 ((isSome_result_iff.mp hend).step_eq_none c _)
  obtain ⟨_, rfl, rfl, _⟩ := hjournal rfl hall
  have hlines : source.lines.length = 1 := by decide +kernel
  rw [hlines] at hresult
  exact ⟨c, source, s, rfl, hfits, rfl, hsteps, by decide +kernel, hresult⟩

/-- With too many slots an ingest of a journal that fails panics before it begins.  With too large
batches it fails with its engine, and not with the last item of the journal's reader. -/
theorem failure_commits_full_batches_oversized :
    (∃ c : Config, c.validate = .ok () ∧ c.skipInvalid = true ∧
      launch c {} ({} : Memory) ⟨[], some "gone"⟩ = .error .capacityOverflow) ∧
    ∃ (c : Config) (s : Stages Memory), c.validate = .ok () ∧ c.skipInvalid = true ∧
      launch c {} ({} : Memory) ⟨[], some "gone"⟩ =
        .ok (start c {} {} ⟨[], some "gone"⟩) ∧
        Steps c (some "gone") (start c {} {} ⟨[], some "gone"⟩) s ∧
          (∀ stage, s.step c (some "gone") stage = none) ∧ s.accepted = s.offered ∧
            s.result = some (.error (.panicked "engine")) := by
  constructor
  · exact ⟨⟨.advanced 1 9223372036854775808, 512, true⟩, rfl, rfl, if_neg (by decide)⟩
  · let c : Config := ⟨.advanced 1 1, 18446744073709551615, true⟩
    let source : Source := ⟨[], some "gone"⟩
    let schedule := (List.replicate 6 [Stage.reader, .parser 0, .keeper]).flatten
    let s := follow c (some "gone") (start c {} ({} : Memory) source) schedule
    have hsteps : Steps c (some "gone") (start c {} ({} : Memory) source) s :=
      steps_follow _ schedule
    have hend : s.result.isSome = true := by decide +kernel
    have hagrees : Agrees c {} source {} s := .steps rfl hsteps
    exact ⟨c, s, rfl, rfl, launch_eq_ok_iff.mpr ⟨by decide, rfl⟩, hsteps,
      (isSome_result_iff.mp hend).step_eq_none c _, by decide +kernel,
      hagrees.result_fallen (by decide) hend⟩

end Stages

end Lineage.Session

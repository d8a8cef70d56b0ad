import Lineage.Proofs.Session.Account

/-!
# What the store has seen

The keeper offers the reference's batches in order and stops at the first refusal (`Committed`).
With the engine's account and the order of what is on its way this makes the whole invariant of an
ingest, `Agrees`, which every step keeps (`Agrees.steps`).

When all stages are at their ends, the store has been offered what a session offers that does one
thing after the other, and the result is the same (`Agrees.result_eq`).
-/

namespace Lineage.Session.Stages

open Lineage.Audit (LineError Source)
open Lineage.Graph (GraphStore Op StoreError)

variable {σ : Type} [GraphStore σ]

/-- The store has seen some of the reference's batches, and none after a refusal. -/
structure Committed (c : Config) (t : Tracker) (source : Source) (store : σ) (s : Stages σ) :
    Prop where
  offer_eq : offer store s.offered = ⟨s.store, s.accepted, s.keeper.refusal⟩
  last : s.keeper.refusal.isSome = true → ∀ m, offeredBatches store (s.offered ++ m) = s.offered
  idle : s.keeper = .ended none → s.engineAt.isOver = true ∧ s.batches = []
  among : s.offered <+: referenceBatches c t source

namespace Committed

variable {c : Config} {t : Tracker} {source : Source} {store : σ} {s s' : Stages σ}

theorem reader_move (h : Committed c t source store s)
    (hmove : ReaderMove c source.failure s s') : Committed c t source store s' := by
  cases hmove <;> exact { h with }

theorem parser_move (h : Committed c t source store s) (hmove : ParserMove c s s') :
    Committed c t source store s' := by
  cases hmove <;> exact { h with }

theorem engine_move (h : Committed c t source store s) (hmove : EngineMove c s s') :
    Committed c t source store s' := by
  obtain ⟨hstore, hoffered, haccepted, hkeeper⟩ := hmove.keeper
  refine ⟨?_, ?_, fun hidle => ?_, ?_⟩
  · rw [hstore, hoffered, haccepted, hkeeper]
    exact h.offer_eq
  · rw [hoffered, hkeeper]
    exact h.last
  · rw [hkeeper] at hidle
    have hover := hmove.isOver_eq_false
    rw [(h.idle hidle).1] at hover
    cases hover
  · rw [hoffered]
    exact h.among

/-- The store as it is behind the batches that were offered. -/
theorem store_eq (h : Committed c t source store s) : (offer store s.offered).store = s.store :=
  congrArg Offer.store h.offer_eq

theorem refusal_eq (h : Committed c t source store s) :
    (offer store s.offered).refusal = s.keeper.refusal :=
  congrArg Offer.refusal h.offer_eq

theorem accepted_eq (h : Committed c t source store s) :
    (offer store s.offered).accepted = s.accepted :=
  congrArg Offer.accepted h.offer_eq

theorem keeper_move (h : Committed c t source store s)
    (hsent : s.keeper.refusal = none → s.sent <+: referenceBatches c t source)
    (hmove : KeeperMove s s') : Committed c t source store s' := by
  have hoffer := h.offer_eq
  have hrefusal := h.refusal_eq
  cases hmove with
  | take hat =>
      rw [hat] at hoffer
      exact ⟨hoffer, (fun hsome => by cases hsome), (fun hidle => by cases hidle), h.among⟩
  | finish hat hbatches hended =>
      rw [hat] at hoffer
      exact ⟨hoffer, (fun hsome => by cases hsome), fun _ => ⟨hended, hbatches⟩, h.among⟩
  | @accept batch store' hat hexecute =>
      rw [hat] at hrefusal
      have hamong := hsent (by rw [hat]; rfl)
      rw [sent, hat, KeeperPoint.held, ← List.append_assoc] at hamong
      refine ⟨?_, (fun hsome => by cases hsome), (fun hidle => by cases hidle),
        (List.prefix_append ..).trans hamong⟩
      rw [offer_append hrefusal, h.store_eq, h.accepted_eq, offer_cons_ok hexecute]
      rfl
  | @refuse batch e store' hat hexecute =>
      rw [hat] at hrefusal
      have hamong := hsent (by rw [hat]; rfl)
      rw [sent, hat, KeeperPoint.held, ← List.append_assoc] at hamong
      refine ⟨?_, fun _ m => ?_, (fun hidle => by cases hidle),
        (List.prefix_append ..).trans hamong⟩
      · rw [offer_append hrefusal, h.store_eq, h.accepted_eq, offer_cons_error hexecute]
        simp [KeeperPoint.refusal]
      · rw [← h.store_eq] at hexecute
        rw [List.append_assoc]
        exact offeredBatches_snoc hrefusal hexecute m
  | raise hat =>
      rw [hat] at hoffer
      exact ⟨hoffer, fun _ => h.last (by rw [hat]; rfl), (fun hidle => by cases hidle), h.among⟩
  | close hat =>
      rw [hat] at hoffer
      exact ⟨hoffer, fun _ => h.last (by rw [hat]; rfl), (fun hidle => by cases hidle), h.among⟩

theorem start (c : Config) (t : Tracker) (store : σ) (source : Source) :
    Committed c t source store (Stages.start c t store source) where
  offer_eq := rfl
  last hsome := by cases hsome
  idle heq := by cases heq
  among := List.nil_prefix

end Committed

/-! ## The whole invariant -/

/-- Everything that is kept during an ingest. -/
structure Agrees (c : Config) (t : Tracker) (source : Source) (store : σ) (s : Stages σ) :
    Prop where
  flow : ∃ handed, Flow c source handed s
  account : ∃ used ops, Account c t source used ops s
  committed : Committed c t source store s
  fallen : s.engineAt = .fallen ↔ c.batchFits = false

/-- No number of a configuration that is in order is zero. -/
theorem pos_of_validate {c : Config} (hc : c.validate = .ok ()) :
    0 < c.batchSize ∧ 0 < c.parserThreads ∧ 0 < c.ringCapacity := by
  obtain ⟨mode, size, skip⟩ := c
  unfold Config.validate at hc
  split at hc
  · cases hc
  · rename_i hsize
    refine ⟨Nat.pos_of_ne_zero hsize, ?_⟩
    cases mode with
    | simple => exact ⟨Nat.one_pos, (by decide : 0 < defaultRingCapacity)⟩
    | advanced threads capacity =>
        simp only at hc
        split at hc
        · cases hc
        · rename_i hthreads
          split at hc
          · cases hc
          · rename_i hcapacity
            refine ⟨Nat.pos_of_ne_zero hthreads, Nat.pos_of_ne_zero fun h0 => ?_⟩
            obtain rfl : capacity = 0 := h0
            exact hcapacity (by decide)

namespace Agrees

variable {c : Config} {t : Tracker} {source : Source} {store : σ} {s s' : Stages σ}

theorem start (c : Config) (t : Tracker) (store : σ) (source : Source) :
    Agrees c t source store (Stages.start c t store source) :=
  ⟨⟨0, Flow.start c t store source⟩, ⟨0, [], Account.start c t store source⟩,
    Committed.start c t store source, start_fallen_iff c t store source⟩

theorem move (h : Agrees c t source store s) (hc : c.validate = .ok ())
    (hmove : Move c source.failure s s') : Agrees c t source store s' := by
  obtain ⟨⟨handed, hflow⟩, ⟨used, ops, haccount⟩, hcommitted, hfallen⟩ := h
  obtain ⟨hsize, hthreads, _⟩ := pos_of_validate hc
  refine ⟨hflow.move hmove, ?_, ?_, hmove.fallen_iff.trans hfallen⟩
  · cases hmove with
    | reader hreader => exact ⟨used, ops, haccount.reader_move hflow hreader⟩
    | parser hparser => exact ⟨used, ops, haccount.parser_move hparser⟩
    | engine hengine =>
        exact haccount.engine_move hflow hsize hthreads
          (fun hkeeper => (hcommitted.idle hkeeper).1) hengine
    | keeper hkeeper => exact ⟨used, ops, haccount.keeper_move hkeeper⟩
  · cases hmove with
    | reader hreader => exact hcommitted.reader_move hreader
    | parser hparser => exact hcommitted.parser_move hparser
    | engine hengine => exact hcommitted.engine_move hengine
    | keeper hkeeper =>
        exact hcommitted.keeper_move (haccount.sent_isPrefix hsize) hkeeper

/-- The invariant holds whatever steps were taken. -/
theorem steps (hc : c.validate = .ok ())
    (hsteps : Steps c source.failure (Stages.start c t store source) s) :
    Agrees c t source store s := by
  induction hsteps with
  | refl => exact .start c t store source
  | snoc stage _ hstep ih => exact ih.move hc (step_move hstep)

/-! ## The end of an ingest -/

/-- The digest of the whole journal, when the stages came to their ends and nothing was refused. -/
theorem digestSource_eq (h : Agrees c t source store s) (hc : c.validate = .ok ())
    (hfailure : source.failure = none) (hengine : s.engineAt = .ended)
    (hkeeper : s.keeper = .ended none) :
    (∃ ops, digestSource c.skipInvalid t source =
      ⟨s.engine.tracker, ops, s.engine.events, s.engine.skipped, s.engine.fatal⟩) ∧
      referenceBatches c t source = s.offered ∧
        (s.engine.fatal = none → ∀ {result}, s.reader = .ended result →
          result = .ok source.lines.length) := by
  obtain ⟨⟨handed, hflow⟩, ⟨used, ops, haccount⟩, hcommitted, -⟩ := h
  obtain ⟨hsize, hthreads, _⟩ := pos_of_validate hc
  have hpast : s.engineAt.isPast = true := by rw [hengine]; rfl
  have hsent : s.sent = s.offered := by
    rw [sent, hkeeper, (hcommitted.idle hkeeper).2]
    exact List.append_nil _
  have hcuts := haccount.cuts (by rw [hkeeper]; rfl)
  simp only [Cuts, hengine, hsent] at hcuts
  have hdigest := haccount.digest_eq
  cases hflag : s.flag with
  | false =>
      obtain ⟨_, hnext, hread⟩ := hflow.read_all hthreads hpast hflag
      have hused : used = source.numberedLines.length := by
        rw [haccount.used_eq hflag, processed, hengine]
        exact hnext
      rw [hused, List.take_length] at hdigest
      refine ⟨⟨ops, hdigest⟩, hcuts.resolve_right fun hcut => ?_, fun _ => hread⟩
      rw [hflag] at hcut
      cases hcut.2
  | true =>
      -- Nothing was refused and the journal did not fail, so a line has ended the ingest.
      have hfatal : s.engine.fatal.isSome = true := by
        rcases haccount.cause hflag with hfatal | hrefused | hfailed
        · exact hfatal
        · rw [hkeeper] at hrefused
          cases hrefused
        · rw [hfailure] at hfailed
          cases hfailed
      obtain ⟨e, he⟩ := Option.isSome_iff_exists.mp hfatal
      have hwhole : digestSource c.skipInvalid t source =
          ⟨s.engine.tracker, ops, s.engine.events, s.engine.skipped, s.engine.fatal⟩ := by
        have hvain := digest_append_of_fatal (by rw [hdigest]; exact he)
          (source.numberedLines.drop used)
        rw [List.take_append_drop] at hvain
        exact hvain.trans hdigest
      refine ⟨⟨ops, hwhole⟩, ?_, fun hnone => ?_⟩
      · rcases hcuts with hall | ⟨hcut, _⟩
        · exact hall
        · rw [referenceBatches, hwhole, batches_eq_full (.inr (.inl hfatal)), hcut]
      · rw [hnone] at hfatal
        cases hfatal

/-- At their ends the stages have left the store as one that is offered the whole reference. -/
theorem offer_reference (h : Agrees c t source store s) (hc : c.validate = .ok ())
    (hfailure : source.failure = none) (hengine : s.engineAt = .ended) {refusal : Option StoreError}
    (hkeeper : s.keeper = .ended refusal) :
    offer store (referenceBatches c t source) = ⟨s.store, s.accepted, refusal⟩ ∧
      s.offered = offeredBatches store (referenceBatches c t source) := by
  have hcommitted := h.committed
  have hoffer := hcommitted.offer_eq
  rw [hkeeper] at hoffer
  cases refusal with
  | some e =>
      -- What was offered comes first in the reference, and what comes behind a refusal is in vain.
      obtain ⟨m, hm⟩ := hcommitted.among
      have hrefused : (offer store s.offered).refusal = some e := by
        rw [hoffer]
        rfl
      constructor
      · rw [← hm, offer_append_of_refused hrefused, hoffer]
        rfl
      · rw [← hm]
        exact (hcommitted.last (by rw [hkeeper]; rfl) m).symm
  | none =>
      obtain ⟨_, hbatches, _⟩ := h.digestSource_eq hc hfailure hengine hkeeper
      have hreference : offer store (referenceBatches c t source) =
          ⟨s.store, s.accepted, none⟩ := by
        rw [hbatches, hoffer]
        rfl
      refine ⟨hreference, ?_⟩
      rw [offeredBatches_of_accepted (by rw [hreference]), hbatches]

/-- A reader of a journal without failure does not end with an error. -/
theorem reader_ok (h : Agrees c t source store s) (hfailure : source.failure = none)
    {lines : Except LineError Nat} (hreader : s.reader = .ended lines) : ∃ n, lines = .ok n := by
  obtain ⟨handed, hflow⟩ := h.flow
  have hfits := hflow.reader
  rw [hreader] at hfits
  cases lines with
  | ok n => exact ⟨n, rfl⟩
  | error e =>
      have hsome := hfits.2.1
      rw [Source.error?, hfailure] at hsome
      cases hsome

/-- What stages come to whose engine has fallen. -/
theorem result_fallen (h : Agrees c t source store s) (hfits : c.batchFits = false)
    (hend : s.result.isSome = true) : s.result = some (.error (.panicked "engine")) := by
  obtain ⟨result, hresult⟩ := Option.isSome_iff_exists.mp hend
  rw [hresult, (comesTo_of_result hresult).eq_panicked (h.fallen.mpr hfits)]

/-- Stages that report have an engine that works. -/
theorem batchFits_of_ok (h : Agrees c t source store s) {report : Report}
    (hresult : s.result = some (.ok report)) : c.batchFits = true := by
  refine Bool.not_eq_false _ ▸ fun hfits => ?_
  cases (h.result_fallen hfits (by rw [hresult]; rfl)).symm.trans hresult

/-- At their ends the stages have done what a session does that takes one thing after the other. -/
theorem result_eq (h : Agrees c t source store s) (hc : c.validate = .ok ())
    (hfits : c.batchFits = true) (hfailure : source.failure = none)
    {result : Except IngestError Report} (hresult : s.result = some result) :
    result = (ingestJournal c t store source).result ∧
      s.offered = offeredBatches store (referenceBatches c t source) ∧
        s.store = (ingestJournal c t store source).store ∧
          (result.isOk = true → s.engine.tracker = (ingestJournal c t store source).tracker) := by
  have herror : source.error? = none := by
    rw [Source.error?, hfailure]
    rfl
  cases comesTo_of_result hresult with
  | fallen hfallen =>
      rw [h.fallen.mp hfallen] at hfits
      cases hfits
  | refused hengine hkeeper =>
      obtain ⟨hreference, hoffered⟩ := h.offer_reference hc hfailure hengine hkeeper
      rw [referenceBatches] at hreference
      simp only [ingestJournal, hreference]
      exact ⟨trivial, hoffered, trivial, fun hok => by cases hok⟩
  | unread _ _ hreader => cases (h.reader_ok hfailure hreader).choose_spec
  | condemned hengine hkeeper _ hfatal =>
      obtain ⟨hreference, hoffered⟩ := h.offer_reference hc hfailure hengine hkeeper
      obtain ⟨⟨ops, hdigest⟩, -⟩ := h.digestSource_eq hc hfailure hengine hkeeper
      rw [referenceBatches, hdigest, hfatal] at hreference
      rw [hfatal] at hdigest
      simp only [ingestJournal, hdigest, hreference, herror]
      exact ⟨trivial, hoffered, trivial, fun hok => by cases hok⟩
  | reported hengine hkeeper hreader hfatal =>
      obtain ⟨hreference, hoffered⟩ := h.offer_reference hc hfailure hengine hkeeper
      obtain ⟨⟨ops, hdigest⟩, -, hread⟩ := h.digestSource_eq hc hfailure hengine hkeeper
      obtain rfl := Except.ok.inj (hread hfatal hreader)
      rw [referenceBatches, hdigest, hfatal] at hreference
      rw [hfatal] at hdigest
      simp only [ingestJournal, hdigest, hreference, herror]
      exact ⟨trivial, hoffered, trivial, fun _ => trivial⟩

end Agrees

end Lineage.Session.Stages

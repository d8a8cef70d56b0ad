import Lineage.Proofs.Session.Flow

/-!
# What the engine has done

However the steps come, the engine has digested some first lines of the journal (`Account`).  The
batches it sent come first in the reference, which is what the digest of the whole journal is
offered in (`Account.sent_isPrefix`).

As long as the flag is down, the engine has used every line it came to.  It is only after the flag
went up that lines are dropped, and only after a refusal that batches are.
-/

namespace Lineage.Session

open Lineage.Audit (Event LineError Source readLine)
open Lineage.Graph (GraphStore Op StoreError)

/-- What the keeper is about to offer. -/
def KeeperPoint.held : KeeperPoint → List (List Op)
  | .offering batch => [batch]
  | _ => []

/-- Why the store has refused a batch, if it has. -/
def KeeperPoint.refusal : KeeperPoint → Option StoreError
  | .raising e | .closing e => some e
  | .ended refusal => refusal
  | _ => none

/-- Whether the engine is busy with a line. -/
def EnginePoint.hasLine : EnginePoint → Bool
  | .checking _ | .raising => true
  | _ => false

/-- The batches that a journal is offered in when nothing is refused. -/
def referenceBatches (c : Config) (t : Tracker) (source : Source) : List (List Op) :=
  (digestSource c.skipInvalid t source).batches c.batchSize source.failure.isNone

namespace Stages

variable {σ : Type}

/-- The batches that the engine has sent, and which are not lost. -/
def sent (s : Stages σ) : List (List Op) := s.offered ++ (s.keeper.held ++ s.batches)

/-- The number of lines that the engine has used or dropped. -/
def processed (s : Stages σ) : Nat :=
  match s.engineAt with
  | .checking _ => s.engine.nextSeq - 1
  | _ => s.engine.nextSeq

/-- The operations are sent in batches, or wait, as the engine stands. -/
def Cuts (c : Config) (t : Tracker) (source : Source) (ops : List Op) (s : Stages σ) : Prop :=
  match s.engineAt with
  | .taking | .checking _ | .raising | .fallen => cut c.batchSize ops = (s.sent, s.engine.ops)
  | .cutting =>
      cut c.batchSize ops =
        (s.sent ++ (cut c.batchSize s.engine.ops).1, (cut c.batchSize s.engine.ops).2)
  | .sending batch =>
      cut c.batchSize ops =
        (s.sent ++ batch :: (cut c.batchSize s.engine.ops).1, (cut c.batchSize s.engine.ops).2)
  | .lastCheck => cut c.batchSize ops = (s.sent, s.engine.ops) ∧ s.engine.ops ≠ []
  | .sendingLast batch => referenceBatches c t source = s.sent ++ [batch]
  | .ended =>
      referenceBatches c t source = s.sent ∨
        cut c.batchSize ops = (s.sent, s.engine.ops) ∧ s.flag = true
  -- Nobody takes batches any more, so one was refused.
  | .cutOff | .lastCutOff => False

/-- Only what was sent, what the engine knows and where it stands matter, and the flag may go up. -/
theorem Cuts.congr {c : Config} {t : Tracker} {source : Source} {ops : List Op} {s s' : Stages σ}
    (h : s.Cuts c t source ops) (hsent : s'.sent = s.sent) (hengine : s'.engine = s.engine)
    (hat : s'.engineAt = s.engineAt) (hflag : s.flag = true → s'.flag = true) :
    s'.Cuts c t source ops := by
  unfold Cuts at h ⊢
  rw [hsent, hengine, hat]
  cases heq : s.engineAt with
  | ended =>
      rw [heq] at h
      exact h.imp_right fun hcut => ⟨hcut.1, hflag hcut.2⟩
  | _ =>
      rw [heq] at h
      exact h

/-- The engine has digested the first `used` lines, which come to the operations `ops`. -/
structure Account (c : Config) (t : Tracker) (source : Source) (used : Nat) (ops : List Op)
    (s : Stages σ) : Prop where
  digest_eq : digest c.skipInvalid t (source.numberedLines.take used) =
    ⟨s.engine.tracker, ops, s.engine.events, s.engine.skipped, s.engine.fatal⟩
  used_eq : s.flag = false → used = s.processed
  condemned : s.engine.fatal.isSome = true → s.engineAt = .raising ∨ s.flag = true
  raising : s.engineAt = .raising → s.engine.fatal.isSome = true
  cause : s.flag = true → s.engine.fatal.isSome = true ∨ s.keeper.refusal.isSome = true ∨
    source.failure.isSome = true
  cuts : s.keeper.refusal = none → s.Cuts c t source ops

/-! ## The engine -/

namespace Account

variable {c : Config} {t : Tracker} {source : Source} {used handed : Nat} {ops : List Op}
variable {s s' : Stages σ}

theorem cut_isPrefix (h : Account c t source used ops s) (hsize : 0 < c.batchSize) :
    (cut c.batchSize ops).1 <+: referenceBatches c t source := by
  have hfull := batches_isPrefix c.skipInvalid t source.numberedLines hsize used
    source.failure.isNone
  rw [h.digest_eq] at hfull
  exact hfull

/-- Until a refusal, the batches that were sent come first in the reference. -/
theorem sent_isPrefix (h : Account c t source used ops s) (hsize : 0 < c.batchSize)
    (hrefusal : s.keeper.refusal = none) : s.sent <+: referenceBatches c t source := by
  have hcuts := h.cuts hrefusal
  have hfull := h.cut_isPrefix hsize
  unfold Cuts at hcuts
  cases hat : s.engineAt <;> simp only [hat] at hcuts
  case taking | checking | raising | fallen =>
      rw [hcuts] at hfull
      exact hfull
  case cutting | sending =>
      rw [hcuts] at hfull
      exact (List.prefix_append ..).trans hfull
  case lastCheck =>
      rw [hcuts.1] at hfull
      exact hfull
  case sendingLast =>
      rw [hcuts]
      exact List.prefix_append ..
  case ended =>
      rcases hcuts with hall | ⟨hcut, _⟩
      · exact ⟨[], (List.append_nil _).trans hall.symm⟩
      · rw [hcut] at hfull
        exact hfull

/-! ## Steps of the reader and the parsers -/

theorem reader_move (h : Account c t source used ops s) (hflow : Flow c source handed s)
    (hmove : ReaderMove c source.failure s s') : Account c t source used ops s' := by
  cases hmove with
  | raise hat =>
      have hfits := hflow.reader
      rw [hat] at hfits
      have hfailure : source.failure.isSome = true := by
        have herror := hfits.1
        rw [Source.error?] at herror
        cases hf : source.failure with
        | none =>
            rw [hf] at herror
            cases herror
        | some reason => rfl
      exact
        { h with
          used_eq := fun hflag => by cases hflag
          condemned := fun _ => .inr rfl
          cause := fun _ => .inr (.inr hfailure)
          cuts := fun hrefusal => (h.cuts hrefusal).congr rfl rfl rfl fun _ => rfl }
  | _ => exact { h with }

theorem parser_move (h : Account c t source used ops s) (hmove : ParserMove c s s') :
    Account c t source used ops s' := by
  cases hmove with
  | take => exact { h with }
  | pass => exact { h with }

/-! ## Steps of the engine -/

/-- The engine goes on with the next line. -/
theorem proceed
    (hdigest : digest c.skipInvalid t (source.numberedLines.take used) =
      ⟨s.engine.tracker, ops, s.engine.events, s.engine.skipped, s.engine.fatal⟩)
    (hused : s.flag = false → used = s.engine.nextSeq)
    (hcondemned : s.engine.fatal.isSome = true → s.flag = true)
    (hcause : s.flag = true → s.engine.fatal.isSome = true ∨ s.keeper.refusal.isSome = true ∨
      source.failure.isSome = true)
    (hcuts : s.keeper.refusal = none → cut c.batchSize ops = (s.sent, s.engine.ops)) :
    Account c t source used ops s.proceed := by
  rcases s.proceed_eq with ⟨_, heq⟩ | ⟨result, _, heq⟩ <;> rw [heq]
  · exact ⟨hdigest, hused, fun hfatal => .inr (hcondemned hfatal),
      (fun hat => by cases hat), hcause, hcuts⟩
  · exact ⟨hdigest, hused, fun hfatal => .inr (hcondemned hfatal),
      (fun hat => by cases hat), hcause, hcuts⟩

/-- Between two lines the engine has processed those that came to it. -/
theorem processed_eq (hline : s.engineAt.hasLine = false) : s.processed = s.engine.nextSeq := by
  unfold processed
  split
  · rename_i hat
    rw [hat] at hline
    cases hline
  · rfl

/-- Between two lines, a line that ends the ingest has made the flag go up. -/
theorem flag_of_fatal (h : Account c t source used ops s) (hline : s.engineAt.hasLine = false)
    (hfatal : s.engine.fatal.isSome = true) : s.flag = true := by
  refine (h.condemned hfatal).resolve_left fun hat => ?_
  rw [hat] at hline
  cases hline

/-- The engine sends what it has, between two lines. -/
theorem setEngine (h : Account c t source used ops s) (hline : s.engineAt.hasLine = false)
    {point : EnginePoint} (hpoint : point.hasLine = false) {rest : List Op}
    {batches : List (List Op)}
    (hcuts : s.keeper.refusal = none →
      Cuts c t source ops
        { s with engine := { s.engine with ops := rest }, engineAt := point, batches := batches }) :
    Account c t source used ops { s with
      engine := { s.engine with ops := rest }, engineAt := point, batches := batches } where
  digest_eq := h.digest_eq
  used_eq hflag := by
    rw [processed_eq hpoint, h.used_eq hflag, processed_eq hline]
  condemned hfatal := .inr (h.flag_of_fatal hline hfatal)
  raising hat := by
    obtain rfl : point = .raising := hat
    cases hpoint
  cause := h.cause
  cuts := hcuts

/-- While the flag is down, no line has ended the ingest, but the one for which it is raised. -/
theorem fatal_eq_none (h : Account c t source used ops s) (hflag : s.flag = false)
    (hat : s.engineAt ≠ .raising) : s.engine.fatal = none := by
  cases hf : s.engine.fatal with
  | none => rfl
  | some e =>
      have hup := (h.condemned (by rw [hf]; rfl)).resolve_left hat
      rw [hflag] at hup
      cases hup

/-- The line that the engine has come to, before it uses it. -/
theorem take_succ (h : Account c t source used ops s) (hflow : Flow c source handed s)
    {result : Except LineError (List Event)} (hat : s.engineAt = .checking result)
    (hflag : s.flag = false) :
    s.engine.fatal = none ∧ s.engine.nextSeq = used + 1 ∧ ∃ x, readLine x.1 x.2 = result ∧
      digest c.skipInvalid t (source.numberedLines.take (used + 1)) =
        (digest c.skipInvalid t (source.numberedLines.take used)).then
          (digest c.skipInvalid s.engine.tracker [x]) := by
  obtain ⟨k, hnext, x, hx, hread⟩ := hflow.checking hat
  have hused := h.used_eq hflag
  rw [processed, hat, hnext] at hused
  obtain rfl : used = k := hused
  have hfatal := h.fatal_eq_none hflag (by simp [hat])
  have hnone : (digest c.skipInvalid t (source.numberedLines.take used)).fatal = none := by
    rw [h.digest_eq]
    exact hfatal
  have hsucc := digest_take_succ hnone hx
  refine ⟨hfatal, hnext, x, hread, hsucc.trans ?_⟩
  rw [h.digest_eq]

/-- The engine has used the line it came to, which gave `more` operations and did not end the
ingest. -/
theorem useLine (h : Account c t source used ops s) (hsize : 0 < c.batchSize)
    {result : Except LineError (List Event)} (hat : s.engineAt = .checking result)
    (hflag : s.flag = false) {engine : Engine} {more : List Op} (hseq : engine.nextSeq = used + 1)
    (hfatal : engine.fatal = none) (hops : engine.ops = s.engine.ops ++ more)
    (hdigest : digest c.skipInvalid t (source.numberedLines.take (used + 1)) =
      ⟨engine.tracker, ops ++ more, engine.events, engine.skipped, engine.fatal⟩) :
    Account c t source (used + 1) (ops ++ more)
      { s with engine := engine, engineAt := .cutting } where
  digest_eq := hdigest
  used_eq _ := hseq.symm
  condemned hsome := by
    simp only [hfatal] at hsome
    cases hsome
  raising hat := by cases hat
  cause hup := by
    rw [hflag] at hup
    cases hup
  cuts hrefusal := by
    have hcuts := h.cuts hrefusal
    simp only [Cuts, hat] at hcuts
    have hcut := cut_append hsize ops more
    rw [hcuts, ← hops] at hcut
    exact hcut

/-- When all lines are used, what was sent and what is left over make the reference. -/
theorem referenceBatches_eq (h : Account c t source used ops s)
    (hused : used = source.numberedLines.length) (hfailure : source.failure = none)
    (hfatal : s.engine.fatal = none) (hcut : cut c.batchSize ops = (s.sent, s.engine.ops)) :
    referenceBatches c t source =
      if s.engine.ops = [] then s.sent else s.sent ++ [s.engine.ops] := by
  have hdigest := h.digest_eq
  rw [hused, List.take_length, hfatal] at hdigest
  rw [referenceBatches, digestSource, hdigest, hfailure]
  split
  · rename_i hops
    rw [batches_eq_full (.inr (.inr (by rw [hcut]; exact hops))), hcut]
  · rename_i hops
    rw [Option.isNone_none, batches_eq_snoc rfl (by rw [hcut]; exact hops), hcut]

theorem engine_move (h : Account c t source used ops s) (hflow : Flow c source handed s)
    (hsize : 0 < c.batchSize) (hthreads : 0 < c.parserThreads)
    (hidle : s.keeper = .ended none → s.engineAt.isOver = true) (hmove : EngineMove c s s') :
    ∃ used' ops', Account c t source used' ops' s' := by
  have hflow' := hflow.engine_move hmove
  have hused := h.used_eq
  have hcuts := h.cuts
  -- A keeper that takes batches no more while the engine works has met a refusal.
  have hclosed : s.isClosed = true → s.keeper.refusal ≠ none := by
    intro hclosed hrefusal
    unfold isClosed at hclosed
    split at hclosed
    · rename_i refusal hkeeper
      rw [hkeeper] at hrefusal
      obtain rfl : refusal = none := hrefusal
      have hover := hmove.isOver_eq_false
      rw [hidle hkeeper] at hover
      cases hover
    · cases hclosed
  cases hmove with
  | takeLine hat =>
      have hline : s.engineAt.hasLine = false := by rw [hat]; rfl
      rw [processed_eq hline] at hused
      simp only [Cuts, hat] at hcuts
      exact ⟨used, ops, proceed h.digest_eq hused (h.flag_of_fatal hline) h.cause hcuts⟩
  | takeMark => exact ⟨used, ops, { h with }⟩
  | finish hat hall hops =>
      have hline : s.engineAt.hasLine = false := by rw [hat]; rfl
      rw [processed_eq hline] at hused
      simp only [Cuts, hat] at hcuts
      refine ⟨used, ops, h.setEngine hline rfl fun hrefusal => ?_⟩
      cases hflag : s.flag with
      | true => exact .inr ⟨hcuts hrefusal, rfl⟩
      | false =>
          obtain ⟨hfailure, hnext, _⟩ := hflow'.read_all hthreads rfl hflag
          have hreference := h.referenceBatches_eq ((hused hflag).trans hnext) hfailure
            (h.fatal_eq_none hflag (by simp [hat])) (hcuts hrefusal)
          rw [if_pos hops] at hreference
          exact .inl hreference
  | leave hat hall hops =>
      simp only [Cuts, hat] at hcuts
      exact ⟨used, ops, h.setEngine (by rw [hat]; rfl) rfl fun hrefusal =>
        ⟨hcuts hrefusal, hops⟩⟩
  | drop hat hflag =>
      simp only [Cuts, hat] at hcuts
      refine ⟨used, ops, proceed h.digest_eq (fun hdown => ?_) (fun _ => hflag) h.cause hcuts⟩
      rw [hflag] at hdown
      cases hdown
  | use hat hflag =>
      obtain ⟨hfatal, hnext, ⟨line, text⟩, hread, hsucc⟩ := h.take_succ hflow hat hflag
      refine ⟨used + 1, _, h.useLine hsize hat hflag hnext hfatal rfl ?_⟩
      rw [hsucc, h.digest_eq, digest_cons_ok hread]
      simp [Digest.then, digest, hfatal]
  | skip hat hflag hskip =>
      obtain ⟨hfatal, hnext, ⟨line, text⟩, hread, hsucc⟩ := h.take_succ hflow hat hflag
      refine ⟨used + 1, _, h.useLine hsize hat hflag hnext hfatal (List.append_nil _).symm ?_⟩
      have hdigest := h.digest_eq
      rw [hskip] at hdigest hsucc ⊢
      rw [hsucc, hdigest, digest_cons_skip hread]
      simp [Digest.then, digest, hfatal]
  | condemn hat hflag hskip =>
      obtain ⟨hfatal, hnext, ⟨line, text⟩, hread, hsucc⟩ := h.take_succ hflow hat hflag
      simp only [Cuts, hat] at hcuts
      refine ⟨used + 1, ops, ?_, fun _ => hnext.symm, fun _ => .inl rfl,
        fun _ => rfl, fun hup => ?_, hcuts⟩
      · rw [hskip] at hsucc ⊢
        have hdigest := h.digest_eq
        rw [hskip] at hdigest
        rw [hsucc, hdigest, digest_cons_fatal hread]
        simp [Digest.then]
      · rw [hflag] at hup
        cases hup
  | raise hat =>
      simp only [Cuts, hat] at hcuts
      exact ⟨used, ops, proceed h.digest_eq (fun hdown => by cases hdown) (fun _ => rfl)
        (fun _ => .inl (h.raising hat)) hcuts⟩
  | cut hat hlong =>
      simp only [Cuts, hat, cut_of_le hsize hlong] at hcuts
      exact ⟨used, ops, h.setEngine (by rw [hat]; rfl) rfl hcuts⟩
  | goOn hat hshort =>
      have hline : s.engineAt.hasLine = false := by rw [hat]; rfl
      rw [processed_eq hline] at hused
      simp only [Cuts, hat, cut_of_lt hshort, List.append_nil] at hcuts
      exact ⟨used, ops, proceed h.digest_eq hused (h.flag_of_fatal hline) h.cause hcuts⟩
  | send hat hopen =>
      simp only [Cuts, hat] at hcuts
      refine ⟨used, ops, h.setEngine (by rw [hat]; rfl) rfl fun hrefusal => ?_⟩
      refine (hcuts hrefusal).trans ?_
      simp [sent]
  | cutOff hat hshut =>
      exact ⟨used, ops, h.setEngine (by rw [hat]; rfl) rfl (hclosed hshut)⟩
  | raiseCutOff hat =>
      simp only [Cuts, hat] at hcuts
      have hrefused : s.keeper.refusal.isSome = true := Option.isSome_iff_ne_none.mpr hcuts
      exact ⟨used, ops, proceed h.digest_eq (fun hdown => by cases hdown) (fun _ => rfl)
        (fun _ => .inr (.inl hrefused)) fun hrefusal => (hcuts hrefusal).elim⟩
  | dropLast hat hflag =>
      simp only [Cuts, hat] at hcuts
      exact ⟨used, ops, h.setEngine (by rw [hat]; rfl) rfl
        fun hrefusal => .inr ⟨(hcuts hrefusal).1, hflag⟩⟩
  | takeLast hat hflag =>
      have hline : s.engineAt.hasLine = false := by rw [hat]; rfl
      rw [processed_eq hline] at hused
      simp only [Cuts, hat] at hcuts
      refine ⟨used, ops, h.setEngine hline rfl fun hrefusal => ?_⟩
      obtain ⟨hfailure, hnext, _⟩ := hflow.read_all hthreads (by rw [hat]; rfl) hflag
      obtain ⟨hcut, hops⟩ := hcuts hrefusal
      have hreference := h.referenceBatches_eq ((hused hflag).trans hnext) hfailure
        (h.fatal_eq_none hflag (by simp [hat])) hcut
      rw [if_neg hops] at hreference
      exact hreference
  | sendLast hat hopen =>
      simp only [Cuts, hat] at hcuts
      refine ⟨used, ops, h.setEngine (by rw [hat]; rfl) rfl fun hrefusal => ?_⟩
      refine .inl ((hcuts hrefusal).trans ?_)
      simp [sent]
  | cutOffLast hat hshut =>
      exact ⟨used, ops, h.setEngine (by rw [hat]; rfl) rfl (hclosed hshut)⟩
  | raiseLast hat =>
      simp only [Cuts, hat] at hcuts
      have hrefused : s.keeper.refusal.isSome = true := Option.isSome_iff_ne_none.mpr hcuts
      exact ⟨used, ops, h.digest_eq, (fun hdown => by cases hdown), fun _ => .inr rfl,
        (fun hraising => by cases hraising), fun _ => .inr (.inl hrefused),
        fun hrefusal => (hcuts hrefusal).elim⟩

/-! ## Steps of the keeper -/

/-- The keeper goes on with batches that the engine has sent. -/
theorem setKeeper (h : Account c t source used ops s) (hnone : s.keeper.refusal = none)
    (hengine : s'.engine = s.engine) (hat : s'.engineAt = s.engineAt) (hflag : s'.flag = s.flag)
    (hsent : s'.sent = s.sent) : Account c t source used ops s' where
  digest_eq := by rw [hengine]; exact h.digest_eq
  used_eq hdown := by
    rw [processed, hat, hengine]
    exact h.used_eq (hflag ▸ hdown)
  condemned := by rw [hengine, hat, hflag]; exact h.condemned
  raising := by rw [hengine, hat]; exact h.raising
  cause hup := by
    rw [hengine]
    rcases h.cause (hflag ▸ hup) with hfatal | hrefused | hfailure
    · exact .inl hfatal
    · rw [hnone] at hrefused
      cases hrefused
    · exact .inr (.inr hfailure)
  cuts _ := (h.cuts hnone).congr hsent hengine hat (hflag ▸ id)

theorem keeper_move [GraphStore σ] (h : Account c t source used ops s) (hmove : KeeperMove s s') :
    Account c t source used ops s' := by
  cases hmove with
  | take hat hbatches =>
      have hnone : s.keeper.refusal = none := by rw [hat]; rfl
      exact h.setKeeper hnone rfl rfl rfl (by simp [sent, hat, hbatches, KeeperPoint.held])
  | finish hat hbatches =>
      have hnone : s.keeper.refusal = none := by rw [hat]; rfl
      exact h.setKeeper hnone rfl rfl rfl (by simp [sent, hat, KeeperPoint.held])
  | accept hat =>
      have hnone : s.keeper.refusal = none := by rw [hat]; rfl
      exact h.setKeeper hnone rfl rfl rfl (by simp [sent, hat, KeeperPoint.held])
  | refuse hat =>
      have hnone : s.keeper.refusal = none := by rw [hat]; rfl
      refine ⟨h.digest_eq, h.used_eq, h.condemned, h.raising, fun hup => ?_,
        (fun hrefusal => by cases hrefusal)⟩
      exact (h.cause hup).imp_right (.imp_left fun _ => rfl)
  | raise hat =>
      exact ⟨h.digest_eq, (fun hdown => by cases hdown), fun _ => .inr rfl, h.raising,
        fun _ => .inr (.inl rfl), (fun hrefusal => by cases hrefusal)⟩
  | close hat =>
      exact ⟨h.digest_eq, h.used_eq, h.condemned, h.raising, fun _ => .inr (.inl rfl),
        (fun hrefusal => by cases hrefusal)⟩

/-- At the start no line is used. -/
theorem start (c : Config) (t : Tracker) (s : σ) (source : Source) :
    Account c t source 0 [] (Stages.start c t s source) where
  digest_eq := rfl
  used_eq _ := by
    unfold processed
    rcases start_engineAt c t s source with hat | hat <;> rw [hat] <;> rfl
  condemned hfatal := by cases hfatal
  raising hraising := by
    rcases start_engineAt c t s source with hat | hat <;> cases hat.symm.trans hraising
  cause hup := by cases hup
  cuts _ := by
    have hnil : cut c.batchSize ([] : List Op) = ([], []) := by
      rw [cut, dif_neg]
      intro hlong
      exact Nat.lt_irrefl 0 (Nat.lt_of_lt_of_le hlong.1 hlong.2)
    unfold Cuts
    rcases start_engineAt c t s source with hat | hat <;> rw [hat] <;> exact hnil

end Account

end Stages

end Lineage.Session

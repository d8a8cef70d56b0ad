import Lineage.Session.Ingest

/-!
# Parts of a digest

A digest can be taken line by line, and its batches cut as the operations come.  `digest_append`
says what more lines add to a digest, and `cut_append` what more operations add to the batches.  So
the batches of a part of the lines are first among the batches of all of them (`batches_isPrefix`).

`offer_append` says the same of offering batches to a store, which ends with the first batch that is
refused.
-/

namespace Lineage.Session

open Lineage.Audit (Event LineError Source isBlankLine readLine)
open Lineage.Graph (GraphStore Op StoreError)
open Lineage.Json (Bytes)

/-! ## Cutting -/

section Cut

variable {α : Type} {n : Nat}

theorem cut_of_lt {l : List α} (h : l.length < n) : cut n l = ([], l) := by
  rw [cut, dif_neg]
  omega

theorem cut_of_le (hn : 0 < n) {l : List α} (h : n ≤ l.length) :
    cut n l = (l.take n :: (cut n (l.drop n)).1, (cut n (l.drop n)).2) := by
  rw [cut, dif_pos ⟨hn, h⟩]

/-- More elements are cut together with what was left over. -/
theorem cut_append (hn : 0 < n) (l m : List α) :
    cut n (l ++ m) = ((cut n l).1 ++ (cut n ((cut n l).2 ++ m)).1,
      (cut n ((cut n l).2 ++ m)).2) := by
  rcases Nat.lt_or_ge l.length n with h | h
  · rw [cut_of_lt h]
    rfl
  · have ih := cut_append hn (l.drop n) m
    have hlong : n ≤ (l ++ m).length := by
      rw [List.length_append]
      omega
    rw [cut_of_le hn hlong, List.drop_append_of_le_length h, List.take_append_of_le_length h, ih,
      cut_of_le hn h]
    rfl
termination_by l.length
decreasing_by
  rw [List.length_drop]
  omega

/-- Every piece has the same length. -/
theorem length_of_mem_cut {l piece : List α} (h : piece ∈ (cut n l).1) : piece.length = n := by
  rw [cut] at h
  split at h
  · rename_i hn
    rcases List.mem_cons.mp h with rfl | hrest
    · rw [List.length_take]
      omega
    · exact length_of_mem_cut hrest
  · cases h
termination_by l.length
decreasing_by
  rw [List.length_drop]
  omega

/-- What is left over is shorter than a piece. -/
theorem length_cut_snd_lt (hn : 0 < n) (l : List α) : (cut n l).2.length < n := by
  rcases Nat.lt_or_ge l.length n with h | h
  · rw [cut_of_lt h]
    exact h
  · rw [cut_of_le hn h]
    exact length_cut_snd_lt hn (l.drop n)
termination_by l.length
decreasing_by
  rw [List.length_drop]
  omega

/-- Nothing is lost and nothing changes its place. -/
theorem flatten_cut (n : Nat) (l : List α) : (cut n l).1.flatten ++ (cut n l).2 = l := by
  rw [cut]
  split
  · have ih := flatten_cut (n := n) (l.drop n)
    rw [List.flatten_cons, List.append_assoc, ih]
    exact List.take_append_drop n l
  · rfl
termination_by l.length
decreasing_by
  rw [List.length_drop]
  omega

end Cut

/-! ## Lines with their numbers -/

/-- The lines that are not blank, with the numbers behind `line`. -/
def numberFrom (line : Nat) (lines : List Bytes) : List (Nat × Bytes) :=
  ((lines.zipIdx (line + 1)).map fun (text, line) => (line, text)).filter
    fun p => !isBlankLine p.2

theorem numberFrom_blank {text : Bytes} (h : isBlankLine text = true) (line : Nat)
    (lines : List Bytes) : numberFrom line (text :: lines) = numberFrom (line + 1) lines := by
  simp [numberFrom, List.zipIdx_cons, h]

theorem numberFrom_cons {text : Bytes} (h : isBlankLine text = false) (line : Nat)
    (lines : List Bytes) :
    numberFrom line (text :: lines) = (line + 1, text) :: numberFrom (line + 1) lines := by
  simp [numberFrom, List.zipIdx_cons, h]

/-! ## Digests -/

section Digest

variable {skip : Bool} {t : Tracker} {l : List (Nat × Bytes)}

/-- What a digest comes to with the digest of what follows. -/
def Digest.then (d rest : Digest) : Digest where
  tracker := rest.tracker
  ops := d.ops ++ rest.ops
  events := d.events + rest.events
  skipped := d.skipped ++ rest.skipped
  fatal := rest.fatal

theorem Digest.then_assoc (d₁ d₂ d₃ : Digest) :
    (d₁.then d₂).then d₃ = d₁.then (d₂.then d₃) := by
  simp [Digest.then, Nat.add_assoc]

theorem digest_cons_ok {line : Nat} {text : Bytes} {events : List Event}
    (h : readLine line text = .ok events) :
    digest skip t ((line, text) :: l) =
      Digest.then ⟨(t.run events).1, (t.run events).2, events.length, [], none⟩
        (digest skip (t.run events).1 l) := by
  simp [digest, h, Digest.then]

theorem digest_cons_skip {line : Nat} {text : Bytes} {e : LineError}
    (h : readLine line text = .error e) :
    digest true t ((line, text) :: l) =
      Digest.then ⟨t, [], 0, [e], none⟩ (digest true t l) := by
  simp [digest, h, Digest.then]

theorem digest_cons_fatal {line : Nat} {text : Bytes} {e : LineError}
    (h : readLine line text = .error e) :
    digest false t ((line, text) :: l) = ⟨t, [], 0, [], some e⟩ := by
  simp [digest, h]

/-- More lines are digested after those before them. -/
theorem digest_append (h : (digest skip t l).fatal = none) (m : List (Nat × Bytes)) :
    digest skip t (l ++ m) = (digest skip t l).then (digest skip (digest skip t l).tracker m) := by
  induction l generalizing t with
  | nil => simp [digest, Digest.then]
  | cons x l ih =>
      obtain ⟨line, text⟩ := x
      cases hread : readLine line text with
      | ok events =>
          rw [digest_cons_ok hread] at h ⊢
          rw [List.cons_append, digest_cons_ok hread, Digest.then_assoc]
          exact congrArg _ (ih h)
      | error e =>
          cases skip with
          | true =>
              rw [digest_cons_skip hread] at h ⊢
              rw [List.cons_append, digest_cons_skip hread, Digest.then_assoc]
              exact congrArg _ (ih h)
          | false =>
              rw [digest_cons_fatal hread] at h
              cases h

/-- A line that ends the digest makes what follows vain. -/
theorem digest_append_of_fatal {e : LineError} (h : (digest skip t l).fatal = some e)
    (m : List (Nat × Bytes)) : digest skip t (l ++ m) = digest skip t l := by
  induction l generalizing t with
  | nil => cases h
  | cons x l ih =>
      obtain ⟨line, text⟩ := x
      cases hread : readLine line text with
      | ok events =>
          rw [digest_cons_ok hread] at h ⊢
          rw [List.cons_append, digest_cons_ok hread]
          exact congrArg _ (ih h)
      | error e' =>
          cases skip with
          | true =>
              rw [digest_cons_skip hread] at h ⊢
              rw [List.cons_append, digest_cons_skip hread]
              exact congrArg _ (ih h)
          | false => rw [List.cons_append, digest_cons_fatal hread, digest_cons_fatal hread]

/-- One more line. -/
theorem digest_take_succ {k : Nat} {x : Nat × Bytes} (h : (digest skip t (l.take k)).fatal = none)
    (hk : l[k]? = some x) :
    digest skip t (l.take (k + 1)) =
      (digest skip t (l.take k)).then (digest skip (digest skip t (l.take k)).tracker [x]) := by
  rw [List.take_add_one, hk]
  exact digest_append h [x]

/-- The operations of some lines come first among those of more lines. -/
theorem exists_ops_append (skip : Bool) (t : Tracker) (l : List (Nat × Bytes)) (k : Nat) :
    ∃ rest, (digest skip t l).ops = (digest skip t (l.take k)).ops ++ rest := by
  have hall := List.take_append_drop k l
  cases h : (digest skip t (l.take k)).fatal with
  | none =>
      have happend := digest_append h (l.drop k)
      rw [hall] at happend
      exact ⟨_, congrArg Digest.ops happend⟩
  | some e =>
      have happend := digest_append_of_fatal h (l.drop k)
      rw [hall] at happend
      exact ⟨[], by rw [happend, List.append_nil]⟩

end Digest

/-! ## Batches -/

/-- Only what is left over at the end of a journal makes a batch that is not full. -/
theorem batches_eq_full {d : Digest} {size : Nat} {complete : Bool}
    (h : complete = false ∨ d.fatal.isSome ∨ (cut size d.ops).2 = []) :
    d.batches size complete = (cut size d.ops).1 := by
  unfold Digest.batches
  rcases h with rfl | h | h
  · rfl
  · cases hf : d.fatal with
    | none => simp [hf] at h
    | some e => simp
  · simp [h]

theorem batches_eq_snoc {d : Digest} {size : Nat} (hfatal : d.fatal = none)
    (h : (cut size d.ops).2 ≠ []) :
    d.batches size true = (cut size d.ops).1 ++ [(cut size d.ops).2] := by
  unfold Digest.batches
  cases hrest : (cut size d.ops).2 with
  | nil => exact absurd hrest h
  | cons op ops => simp [hfatal, hrest]

theorem full_isPrefix_batches (d : Digest) (size : Nat) (complete : Bool) :
    (cut size d.ops).1 <+: d.batches size complete := by
  simp only [Digest.batches]
  split
  · exact List.prefix_append ..
  · exact List.prefix_refl _

/-- The full batches of some lines come first among the batches of more lines. -/
theorem batches_isPrefix (skip : Bool) (t : Tracker) (l : List (Nat × Bytes)) {size : Nat}
    (hsize : 0 < size) (k : Nat) (complete : Bool) :
    (cut size (digest skip t (l.take k)).ops).1 <+: (digest skip t l).batches size complete := by
  refine List.IsPrefix.trans ?_ (full_isPrefix_batches (digest skip t l) size complete)
  obtain ⟨rest, hrest⟩ := exists_ops_append skip t l k
  rw [hrest, cut_append hsize]
  exact List.prefix_append ..

/-- The batches of a digest: full ones, and what is left over if the journal came to its end. -/
theorem exists_batches_eq (d : Digest) {size : Nat} (hsize : 0 < size) (complete : Bool) :
    ∃ full rest, d.ops = full.flatten ++ rest ∧ (∀ batch ∈ full, batch.length = size) ∧
      rest.length < size ∧
        d.batches size complete =
          if complete = true ∧ d.fatal = none ∧ rest ≠ [] then full ++ [rest] else full := by
  refine ⟨(cut size d.ops).1, (cut size d.ops).2, (flatten_cut size d.ops).symm,
    fun _ => length_of_mem_cut, length_cut_snd_lt hsize d.ops, ?_⟩
  split
  · rename_i h
    rw [h.1]
    exact batches_eq_snoc h.2.1 h.2.2
  · rename_i h
    refine batches_eq_full ?_
    cases complete with
    | false => exact .inl rfl
    | true =>
        cases hfatal : d.fatal with
        | some e => exact .inr (.inl rfl)
        | none => exact .inr (.inr (Decidable.not_not.mp fun hrest => h ⟨rfl, hfatal, hrest⟩))

/-! ## Offers -/

section Offer

variable {σ : Type} [GraphStore σ]

/-- The batches of a list that are offered, which end with the first one that is refused. -/
def offeredBatches (s : σ) : List (List Op) → List (List Op)
  | [] => []
  | batch :: batches =>
    batch ::
      match GraphStore.execute s batch with
      | (.error _, _) => []
      | (.ok (), s) => offeredBatches s batches

theorem offer_cons_ok {s s' : σ} {batch : List Op} (h : GraphStore.execute s batch = (.ok (), s'))
    (l : List (List Op)) :
    offer s (batch :: l) = { offer s' l with accepted := batch :: (offer s' l).accepted } := by
  simp only [offer, h]

theorem offer_cons_error {s s' : σ} {batch : List Op} {e : StoreError}
    (h : GraphStore.execute s batch = (.error e, s')) (l : List (List Op)) :
    offer s (batch :: l) = { store := s', refusal := some e } := by
  simp only [offer, h]

/-- More batches are offered after those before them. -/
theorem offer_append {s : σ} {l : List (List Op)} (h : (offer s l).refusal = none)
    (m : List (List Op)) :
    offer s (l ++ m) =
      { offer (offer s l).store m with
        accepted := (offer s l).accepted ++ (offer (offer s l).store m).accepted } := by
  induction l generalizing s with
  | nil => rfl
  | cons batch l ih =>
      cases hx : GraphStore.execute s batch with
      | mk answer s' =>
          cases answer with
          | error e =>
              rw [offer_cons_error hx] at h
              cases h
          | ok _ =>
              rw [offer_cons_ok hx] at h ⊢
              rw [List.cons_append, offer_cons_ok hx, ih h]
              rfl

/-- After a refusal nothing more happens. -/
theorem offer_append_of_refused {s : σ} {l : List (List Op)} {e : StoreError}
    (h : (offer s l).refusal = some e) (m : List (List Op)) : offer s (l ++ m) = offer s l := by
  induction l generalizing s with
  | nil => cases h
  | cons batch l ih =>
      cases hx : GraphStore.execute s batch with
      | mk answer s' =>
          cases answer with
          | error e' => rw [List.cons_append, offer_cons_error hx, offer_cons_error hx]
          | ok _ =>
              rw [offer_cons_ok hx] at h ⊢
              rw [List.cons_append, offer_cons_ok hx, ih h]

theorem accepted_of_accepted {s : σ} {l : List (List Op)} (h : (offer s l).refusal = none) :
    (offer s l).accepted = l := by
  induction l generalizing s with
  | nil => rfl
  | cons batch l ih =>
      cases hx : GraphStore.execute s batch with
      | mk answer s' =>
          cases answer with
          | error e =>
              rw [offer_cons_error hx] at h
              cases h
          | ok _ =>
              rw [offer_cons_ok hx] at h ⊢
              exact congrArg (batch :: ·) (ih h)

theorem offeredBatches_of_accepted {s : σ} {l : List (List Op)} (h : (offer s l).refusal = none) :
    offeredBatches s l = l := by
  induction l generalizing s with
  | nil => rfl
  | cons batch l ih =>
      cases hx : GraphStore.execute s batch with
      | mk answer s' =>
          cases answer with
          | error e =>
              rw [offer_cons_error hx] at h
              cases h
          | ok _ =>
              rw [offer_cons_ok hx] at h
              simp only [offeredBatches, hx]
              exact congrArg (batch :: ·) (ih h)

/-- A batch that is refused is the last one that is offered. -/
theorem offeredBatches_snoc {s s' : σ} {l : List (List Op)} {batch : List Op} {e : StoreError}
    (h : (offer s l).refusal = none)
    (hrefused : GraphStore.execute (offer s l).store batch = (.error e, s')) (m : List (List Op)) :
    offeredBatches s (l ++ batch :: m) = l ++ [batch] := by
  induction l generalizing s with
  | nil =>
      simp only [offer] at hrefused
      simp only [List.nil_append, offeredBatches, hrefused]
  | cons first l ih =>
      cases hx : GraphStore.execute s first with
      | mk answer s' =>
          cases answer with
          | error e =>
              rw [offer_cons_error hx] at h
              cases h
          | ok _ =>
              rw [offer_cons_ok hx] at h hrefused
              simp only [List.cons_append, offeredBatches, hx]
              exact congrArg (first :: ·) (ih h hrefused)

end Offer

end Lineage.Session

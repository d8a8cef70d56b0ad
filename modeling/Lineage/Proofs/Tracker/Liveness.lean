import Mathlib.Data.Set.Card
import Lineage.Proofs.Tracker.Changes
import Lineage.Proofs.Tracker.Rearrangement

/-!
# Who is live

Whether a process is live, and whether its node is thin, can be read off the events alone.  A
process is live when it did not end with the last event that touches it (`Audit.Alive`), and its
node is thin unless it has started a program and not ended since (`Audit.Started`).

`Chronicle.live_step` says what an event does to the mark of one process.
`Chronicle.isSome_live_run` and `Chronicle.live_run_eq_iff` say from it what is left behind many
events, and the roster tells the same (`Tracker.roster_of_history`).
-/

namespace Lineage

open Lineage.Audit (Event)
open Lineage.Graph (Memory NodeId Op Uuid)

namespace Audit

/-! ## What the events say -/

/-- The process ends with the event. -/
def Event.Ends (e : Event) (uuid : Uuid) : Prop := e.kind = .exit ∧ e.subjProcUuid = uuid

/-- The process starts a program with the event. -/
def Event.StartsProgram (e : Event) (uuid : Uuid) : Prop :=
  e.kind = .execve ∧ e.subjProcUuid = uuid

instance (e : Event) (uuid : Uuid) : Decidable (e.Ends uuid) :=
  inferInstanceAs (Decidable (_ ∧ _))

instance (e : Event) (uuid : Uuid) : Decidable (e.StartsProgram uuid) :=
  inferInstanceAs (Decidable (_ ∧ _))

/-- Some event has the first property, and none behind it has the second one. -/
def Since (p q : Event → Prop) (es : List Event) : Prop :=
  ∃ before e after, es = before ++ e :: after ∧ p e ∧ ∀ x ∈ after, ¬ q x

/-- Some event touches the process, and the process does not end with the last one that does or
behind it. -/
def Alive (es : List Event) (uuid : Uuid) : Prop :=
  ∃ before e after, es = before ++ e :: after ∧ uuid ∈ e.footprint ∧
    (∀ x ∈ after, uuid ∉ x.footprint) ∧ ∀ x ∈ e :: after, ¬ x.Ends uuid

/-- The process has started a program, and has not ended since. -/
def Started (es : List Event) (uuid : Uuid) : Prop :=
  Since (·.StartsProgram uuid) (·.Ends uuid) es

theorem not_since_nil (p q : Event → Prop) : ¬ Since p q [] := by
  rintro ⟨before, e, after, hes, _⟩
  simp at hes

theorem since_concat {p q : Event → Prop} {es : List Event} {e : Event} :
    Since p q (es ++ [e]) ↔ p e ∨ ¬ q e ∧ Since p q es := by
  constructor
  · rintro ⟨before, x, after, hes, hx, hafter⟩
    rcases List.eq_nil_or_concat' after with rfl | ⟨mid, y, rfl⟩
    · obtain ⟨rfl, rfl⟩ := List.append_singleton_inj.mp hes
      exact .inl hx
    · rw [← List.cons_append, ← List.append_assoc] at hes
      obtain ⟨rfl, rfl⟩ := List.append_singleton_inj.mp hes
      exact .inr ⟨hafter e (by simp), before, x, mid, rfl, hx,
        fun y hy => hafter y (by simp [hy])⟩
  · rintro (hp | ⟨hq, before, x, after, rfl, hx, hafter⟩)
    · exact ⟨es, e, [], rfl, hp, by simp⟩
    · refine ⟨before, x, after ++ [e], by simp, hx, fun y hy => ?_⟩
      rcases List.mem_append.mp hy with hy | hy
      · exact hafter y hy
      · exact List.mem_singleton.mp hy ▸ hq

theorem Event.Ends.mem_footprint {e : Event} {uuid : Uuid} (h : e.Ends uuid) :
    uuid ∈ e.footprint :=
  h.2 ▸ e.subj_mem_footprint

theorem Event.StartsProgram.mem_footprint {e : Event} {uuid : Uuid} (h : e.StartsProgram uuid) :
    uuid ∈ e.footprint :=
  h.2 ▸ e.subj_mem_footprint

theorem Event.not_ends {e : Event} (h : e.kind ≠ .exit) (uuid : Uuid) : ¬ e.Ends uuid :=
  fun hends => h hends.1

theorem Event.not_startsProgram {e : Event} (h : e.kind ≠ .execve) (uuid : Uuid) :
    ¬ e.StartsProgram uuid :=
  fun hstarts => h hstarts.1

theorem Event.StartsProgram.not_ends {e : Event} {uuid : Uuid} (h : e.StartsProgram uuid) :
    ¬ e.Ends uuid :=
  Event.not_ends (by simp [h.1]) uuid

/-- Since a process is touched by the event with which it ends, the last event that touches it
decides. -/
theorem alive_iff_since {es : List Event} {uuid : Uuid} :
    Alive es uuid ↔ Since (fun e => uuid ∈ e.footprint ∧ ¬ e.Ends uuid)
      (uuid ∈ ·.footprint) es := by
  constructor
  · rintro ⟨before, e, after, hes, he, hlast, hends⟩
    exact ⟨before, e, after, hes, ⟨he, hends e (List.mem_cons_self ..)⟩, hlast⟩
  · rintro ⟨before, e, after, hes, ⟨he, hends⟩, hlast⟩
    refine ⟨before, e, after, hes, he, hlast,
      List.forall_mem_cons.mpr ⟨hends, fun x hx h => ?_⟩⟩
    exact hlast x hx h.mem_footprint

theorem alive_concat {es : List Event} {e : Event} {uuid : Uuid} :
    Alive (es ++ [e]) uuid ↔ if uuid ∈ e.footprint then ¬ e.Ends uuid else Alive es uuid := by
  rw [alive_iff_since, alive_iff_since, since_concat]
  split
  · rename_i hmem
    simp [hmem]
  · rename_i hmem
    simp [hmem]

theorem started_concat {es : List Event} {e : Event} {uuid : Uuid} :
    Started (es ++ [e]) uuid ↔ e.StartsProgram uuid ∨ ¬ e.Ends uuid ∧ Started es uuid :=
  since_concat

end Audit

open Lineage.Audit (Alive Started)

/-! ## What the chronicle keeps of them -/

namespace Career

theorem live_announce (c : Career) (pid : UInt32) (cmdline : String) :
    (c.announce pid cmdline).live = some (c.live.getD true) := by
  unfold announce
  cases hlive : c.live with
  | none => rfl
  | some thin => exact hlive

theorem live_adopt (c : Career) (pid : UInt32) (cmdline : String) :
    (c.adopt pid cmdline).live = some (c.live.getD true) := by
  unfold adopt
  cases hlive : c.live with
  | none => rfl
  | some thin => exact hlive

end Career

namespace Chronicle

theorem live_announce (k : Chronicle) (uuid : Uuid) (pid : UInt32) (cmdline : String) :
    ((k.announce uuid pid cmdline).career uuid).live = some ((k.career uuid).live.getD true) := by
  rw [announce, career_set_self, Career.live_announce]

/-- The announcement of a process changes the mark of no other one. -/
theorem getD_live_announce (k : Chronicle) (uuid v : Uuid) (pid : UInt32) (cmdline : String) :
    ((k.announce uuid pid cmdline).career v).live.getD true = (k.career v).live.getD true := by
  by_cases hv : v = uuid
  · subst hv
    rw [live_announce, Option.getD_some]
  · rw [announce, career_set_ne k hv]

theorem live_startProgram (k : Chronicle) (e : Event) :
    ((k.startProgram e).career e.subjProcUuid).live = some false := by
  unfold startProgram
  dsimp only
  split
  · rw [career_set_self]
  · exact congrArg Career.live (career_set_self ..)

theorem live_startChild (k : Chronicle) (e : Event) (uuid : Uuid) :
    ((k.startChild e).career uuid).live =
      if uuid = e.retObjUuid1 then some ((k.career uuid).live.getD true)
      else (k.career uuid).live := by
  unfold startChild
  split
  · rename_i hret
    subst hret
    exact (congrArg Career.live (career_set_self ..)).trans (Career.live_adopt ..)
  · rename_i hret
    exact congrArg Career.live (career_set_ne k hret _)

/-- The mark of a process behind an event. -/
theorem live_step (k : Chronicle) (e : Event) (uuid : Uuid) :
    ((k.step e).career uuid).live =
      if e.Ends uuid then none
      else if e.StartsProgram uuid then some false
      else if uuid ∈ e.footprint then some ((k.career uuid).live.getD true)
      else (k.career uuid).live := by
  by_cases hmem : uuid ∈ e.footprint
  · rw [if_pos hmem, step]
    cases hkind : e.kind with
    | execve =>
        simp only [Audit.Event.footprint, hkind, List.mem_singleton] at hmem
        subst hmem
        have hstarts : e.StartsProgram e.subjProcUuid := ⟨hkind, rfl⟩
        rw [if_neg hstarts.not_ends, if_pos hstarts]
        simp only [act, hkind]
        exact live_startProgram ..
    | exit =>
        simp only [Audit.Event.footprint, hkind, List.mem_singleton] at hmem
        subst hmem
        rw [if_pos ⟨hkind, rfl⟩]
        simp only [act, hkind]
        exact congrArg Career.live (career_set_self ..)
    | other =>
        simp only [Audit.Event.footprint, hkind, List.mem_singleton] at hmem
        subst hmem
        rw [if_neg (Audit.Event.not_ends (by simp [hkind]) _),
          if_neg (Audit.Event.not_startsProgram (by simp [hkind]) _)]
        simp only [act, hkind]
        exact live_announce ..
    | fork | vfork =>
        simp only [Audit.Event.footprint, hkind, List.mem_cons, List.not_mem_nil, or_false] at hmem
        rw [if_neg (Audit.Event.not_ends (by simp [hkind]) _),
          if_neg (Audit.Event.not_startsProgram (by simp [hkind]) _)]
        simp only [act, hkind]
        rw [live_startChild, getD_live_announce]
        split
        · rfl
        · rename_i hret
          obtain rfl := hmem.resolve_right hret
          exact live_announce ..
  · rw [step_frame k hmem, if_neg fun h => hmem h.mem_footprint,
      if_neg fun h => hmem h.mem_footprint, if_neg hmem]

theorem run_concat (k : Chronicle) (es : List Event) (e : Event) :
    k.run (es ++ [e]) = (k.run es).step e :=
  List.foldl_concat ..

/-- Behind some events, the processes are live that the events say are alive. -/
theorem isSome_live_run (es : List Event) (uuid : Uuid) :
    ((({} : Chronicle).run es).career uuid).live.isSome ↔ Alive es uuid := by
  induction es using List.reverseRecOn with
  | nil =>
      rw [Audit.alive_iff_since]
      exact iff_of_false Bool.false_ne_true (Audit.not_since_nil _ _)
  | append_singleton es e ih =>
      rw [run_concat, live_step, Audit.alive_concat, ← ih]
      by_cases hends : e.Ends uuid
      · simp [hends, hends.mem_footprint]
      · by_cases hstarts : e.StartsProgram uuid
        · simp [hends, hstarts, hstarts.mem_footprint]
        · by_cases hmem : uuid ∈ e.footprint <;> simp [hends, hstarts, hmem]

/-- The mark says whether a live process has started a program since it ended the last time. -/
theorem live_run_eq_iff (es : List Event) (uuid : Uuid) :
    ((({} : Chronicle).run es).career uuid).live = some false ↔ Started es uuid := by
  induction es using List.reverseRecOn with
  | nil => exact iff_of_false nofun (Audit.not_since_nil _ _)
  | append_singleton es e ih =>
      rw [run_concat, live_step, Audit.started_concat, ← ih]
      by_cases hends : e.Ends uuid
      · have hstarts : ¬ e.StartsProgram uuid := fun h => h.not_ends hends
        simp [hends, hstarts]
      · by_cases hstarts : e.StartsProgram uuid
        · simp [hends, hstarts]
        · by_cases hmem : uuid ∈ e.footprint
          · simp [hends, hstarts, hmem, Option.getD_eq_iff]
          · simp [hends, hstarts, hmem]

end Chronicle

/-! ## What the roster keeps of them -/

namespace Table

variable {κ α : Type} [DecidableEq κ]

theorem isSome_find?_iff (k : κ) (entries : List (κ × α)) :
    (find? k entries).isSome ↔ k ∈ entries.map Prod.fst := by
  induction entries with
  | nil => simp [find?]
  | cons e es ih =>
      rw [find?, List.map_cons, List.mem_cons, ← ih]
      split
      · rename_i hk
        simp [hk]
      · rename_i hk
        simp [hk]

/-- The size of a table is the number of keys with a value. -/
theorem encard_keys (t : Table κ α) : {k | (t.get? k).isSome}.encard = t.size := by
  have hkeys : {k | (t.get? k).isSome} = ((t.entries.map Prod.fst).toFinset : Set κ) := by
    ext k
    simp only [Set.mem_ofPred_eq, get?, isSome_find?_iff, List.coe_toFinset]
  rw [hkeys, Set.encard_coe_eq_coe_finsetCard, List.toFinset_card_of_nodup t.nodup, List.length_map,
    size]

end Table

namespace Roster

/-- A process that is live at a thin node or starts no program gets no next incarnation. -/
theorem next_mem_act_iff {r : Roster} {id : NodeId} {i : Incarnation} (hget : r.get? id = some i)
    (e : Event) :
    (∃ src dst, Op.createRel src dst .next ∈ (r.act id e).2) ↔ e.kind = .execve ∧
      i.thin = false := by
  cases hkind : e.kind with
  | execve =>
      simp only [act, hkind]
      cases hthin : i.thin with
      | true => simp [startProgram_of_thin hget hthin]
      | false => simp [startProgram_of_started hget hthin]
  | fork | vfork =>
      simp only [act, hkind]
      cases hchild : r.find? e.retObjUuid1 with
      | some child => simp [startChild_of_live hchild]
      | none => simp [startChild_of_absent hchild]
  | exit => simp [act, hkind]
  | other => simp [act, hkind]

/-- A process gets a next incarnation when it starts a program, is live, and has started one
before. -/
theorem next_mem_step_iff {r : Roster} (hwf : r.WellFormed) (e : Event) :
    (∃ src dst, Op.createRel src dst .next ∈ (r.step e).2) ↔
      e.kind = .execve ∧ ∃ id i, r.find? e.subjProcUuid = some id ∧ r.get? id = some i ∧
        i.thin = false := by
  rw [step_eq]
  cases hlive : r.find? e.subjProcUuid with
  | some id =>
      obtain ⟨i, hget⟩ := Option.isSome_iff_exists.mp (hwf.has_incarnation hlive)
      simp [announce_of_live hlive, next_mem_act_iff hget, hget]
  | none =>
      have hget : (r.renew e.subjProcUuid e.exec true).1.get? r.nextId =
          some ⟨r.nextId, e.exec, true⟩ := by
        simp [get?_renew, hlive]
      simp [announce_of_absent hlive, next_mem_act_iff hget]

end Roster

namespace Tracker

theorem isSome_find?_iff (es : List Event) (uuid : Uuid) :
    ((({} : Tracker).run es).1.roster.find? uuid).isSome ↔ Alive es uuid := by
  obtain ⟨_, _, _, htells⟩ := exists_tells es
  rw [htells.find?_eq, Option.isSome_map, Chronicle.isSome_live_run]

theorem exists_incarnation (es : List Event) {uuid : Uuid} {id : NodeId}
    (hlive : (({} : Tracker).run es).1.roster.find? uuid = some id) :
    ∃ i, (({} : Tracker).run es).1.roster.get? id = some i ∧
      (i.thin = true ↔ ¬ Started es uuid) := by
  obtain ⟨_, _, _, htells⟩ := exists_tells es
  obtain ⟨_, _, thin, hmark, hget⟩ := htells.live hlive
  refine ⟨_, hget, ?_⟩
  rw [← Chronicle.live_run_eq_iff, hmark]
  cases thin <;> simp

/-- The processes that have started a program are those with a node that is not thin. -/
theorem exists_started_iff (es : List Event) (uuid : Uuid) :
    (∃ id i, (({} : Tracker).run es).1.roster.find? uuid = some id ∧
      (({} : Tracker).run es).1.roster.get? id = some i ∧ i.thin = false) ↔
        Started es uuid := by
  constructor
  · rintro ⟨id, i, hlive, hget, hthin⟩
    obtain ⟨j, hget', hstarted⟩ := exists_incarnation es hlive
    obtain rfl := Option.some_inj.mp (hget.symm.trans hget')
    by_contra hnot
    exact Bool.false_ne_true (hthin.symm.trans (hstarted.mpr hnot))
  · intro hstarted
    obtain ⟨_, _, _, htells⟩ := exists_tells es
    have hmark := (Chronicle.live_run_eq_iff es uuid).mpr hstarted
    exact ⟨_, _, by rw [htells.find?_eq, hmark, Option.map_some], htells.get?_eq hmark, rfl⟩

/-- The roster is a function of the events.  It holds the processes that are alive, and a node is
thin unless its process has started a program since it ended the last time.  So a process gets a
next incarnation when it starts a program and has started one before, and the number of live
processes is the number of those that are alive. -/
theorem roster_of_history (es : List Event) :
    let t := (({} : Tracker).run es).1
    (∀ uuid, (t.roster.find? uuid).isSome ↔ Alive es uuid) ∧
      (∀ uuid id, t.roster.find? uuid = some id →
        ∃ i, t.roster.get? id = some i ∧ (i.thin = true ↔ ¬ Started es uuid)) ∧
      (∀ e, (∃ src dst, Op.createRel src dst .next ∈ (t.process e).2) ↔
        e.kind = .execve ∧ Started es e.subjProcUuid) ∧
      {uuid | Alive es uuid}.encard = t.stats.live := by
  intro t
  refine ⟨isSome_find?_iff es, fun uuid id => exists_incarnation es, fun e => ?_, ?_⟩
  · have hwf := wellFormed_run (t := {}) .new es
    rw [← exists_started_iff]
    exact Roster.next_mem_step_iff hwf e
  · have hkeys : {uuid | Alive es uuid} = {uuid | (t.roster.index.get? uuid).isSome} :=
      Set.ext fun uuid => (isSome_find?_iff es uuid).symm
    rw [hkeys, Table.encard_keys]
    rfl

/-- A process starts a program and ends, and is the child of another one afterwards.  It is alive at
a thin node then, and has two more processes beside it. -/
theorem roster_of_history_reborn :
    let execve := fun uuid : Uuid =>
      ({ event := "audit:event:aue_execve:", subjProcUuid := uuid } : Event)
    let exit : Event := { event := "audit:event:aue_exit:", subjProcUuid := "U1" }
    let fork : Event :=
      { event := "audit:event:aue_fork:", subjProcUuid := "U2", retObjUuid1 := "U1", retval := 7 }
    let es := [execve "U1", exit, fork, execve "U3"]
    (({} : Tracker).run es).1.roster.find? "U1" = some 2 ∧ Alive es "U1" ∧
      ¬ Started es "U1" ∧
      Started es "U3" ∧ {uuid | Alive es uuid}.encard = 3 := by
  intro execve exit fork es
  have hlive : (({} : Tracker).run es).1.roster.find? "U1" = some 2 := by decide
  have hthin : (({} : Tracker).run es).1.roster.get? 2 = some ⟨2, "", true⟩ := by decide
  obtain ⟨halive, hstarted, hnext, hsize⟩ := roster_of_history es
  refine ⟨hlive, (halive "U1").mp (by rw [hlive]; rfl), ?_, ?_, hsize.trans ?_⟩
  · obtain ⟨i, hget, hiff⟩ := hstarted "U1" 2 hlive
    obtain rfl := Option.some_inj.mp (hthin.symm.trans hget)
    exact hiff.mp rfl
  · exact ((hnext (execve "U3")).mp ⟨3, 4, by decide⟩).2
  · have hcount : (({} : Tracker).run es).1.stats.live = 3 := by decide
    rw [hcount]
    rfl

end Tracker

end Lineage

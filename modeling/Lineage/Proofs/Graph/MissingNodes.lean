import Lineage.Graph.Remote
import Lineage.Proofs.Graph.Batches
import Lineage.Proofs.Text.Integer
import Mathlib.Order.Bounds.Defs

/-!
# Nodes that are not there

The store in memory finds out that a node is not there when it comes to the operation that needs it.
The store behind a database asks beforehand, for all the nodes of `externalRefs` at once.  Both
refuse the same batches (`stores_refuse_alike`), though not for the same node.  The store in memory
names the one that it came to first, and the server the least.

What the server replies is taken to be true of the graph (`Remote.Truthful`).  The reply is a signed
number of 64 bits, so the ids must be below its bound.
-/

namespace Lineage.Graph

open Lineage.Graph.Cypher (needs creates neededFrom insertAscending externalRefs missingCheck)

/-! ## Ascending ids -/

namespace Cypher

theorem pairwise_insertAscending {id : NodeId} {is : List NodeId} (h : is.Pairwise (· < ·)) :
    (insertAscending id is).Pairwise (· < ·) := by
  induction is with
  | nil => exact List.pairwise_singleton ..
  | cons i is ih =>
      obtain ⟨hi, his⟩ := List.pairwise_cons.mp h
      rw [insertAscending]
      split
      next before =>
        refine List.pairwise_cons.mpr ⟨fun j hj => ?_, h⟩
        rcases List.mem_cons.mp hj with rfl | hj
        · exact before
        · exact Nat.lt_trans before (hi j hj)
      next notBefore =>
        split
        next => exact h
        next other =>
          refine List.pairwise_cons.mpr ⟨fun j hj => ?_, ih his⟩
          rcases mem_insertAscending.mp hj with rfl | hj
          · exact Nat.lt_of_le_of_ne (Nat.le_of_not_lt notBefore) (Ne.symm other)
          · exact hi j hj

theorem pairwise_externalRefs (ops : List Op) : (externalRefs ops).Pairwise (· < ·) := by
  rw [externalRefs]
  induction neededFrom [] ops with
  | nil => exact .nil
  | cons id ids ih => exact pairwise_insertAscending ih

end Cypher

/-! ## The store in memory -/

namespace Memory

variable {m : Memory} {ops : List Op} {e : StoreError}

/-- An operation is refused for a node that it needs. -/
theorem missing_of_apply {op : Op} (h : m.apply op = .error e) :
    ∃ id ∈ needs op, m.nodes.contains id = false ∧ e = .unknownNode id := by
  cases op with
  | createNode id uuid pid cmdline => cases h
  | createRel src dst cls =>
      simp only [apply, Bool.not_eq_true'] at h
      split at h
      next hsrc =>
        cases h
        exact ⟨src, List.mem_cons_self .., hsrc, rfl⟩
      next =>
        split at h
        next hdst =>
          cases h
          exact ⟨dst, List.mem_cons_of_mem _ (List.mem_singleton_self dst), hdst, rfl⟩
        next => cases h
  | updateNode id pid cmdline =>
      simp only [apply, Bool.not_eq_true'] at h
      split at h
      next hid =>
        cases h
        exact ⟨id, List.mem_singleton_self id, hid, rfl⟩
      next => cases h

/-- Operations are refused for a node that they need from outside, where `created` are nodes that
are there in any case. -/
theorem missing_of_applyAll (created : List NodeId)
    (hc : ∀ id ∈ created, m.nodes.contains id = true) (h : m.applyAll ops = .error e) :
    ∃ id ∈ neededFrom created ops, m.nodes.contains id = false ∧ e = .unknownNode id := by
  induction ops generalizing m created with
  | nil => cases h
  | cons op ops ih =>
      rw [applyAll] at h
      split at h
      next e' happly =>
        cases h
        obtain ⟨id, hid, hmissing, he⟩ := missing_of_apply happly
        refine ⟨id, List.mem_append_left _ (List.mem_filter.mpr ⟨hid, ?_⟩), hmissing, he⟩
        -- What is in `created` is there, so a node that is missing is not in it.
        rw [Bool.not_eq_true', List.contains_eq_mem, decide_eq_false_iff_not]
        intro hcreated
        rw [hc id hcreated] at hmissing
        cases hmissing
      next g happly =>
        obtain ⟨_, rfl⟩ := apply_ok_iff.mp happly
        have hc' : ∀ id ∈ creates op ++ created, (m.effect op).nodes.contains id = true := by
          intro id hid
          rw [contains_effect]
          exact (List.mem_append.mp hid).symm.imp_left (hc id)
        obtain ⟨id, hid, hmissing, he⟩ := ih _ hc' h
        refine ⟨id, List.mem_append_right _ hid, ?_, he⟩
        cases hcontains : m.nodes.contains id with
        | false => rfl
        | true =>
            rw [(contains_effect m op id).mpr (.inl hcontains)] at hmissing
            cases hmissing

theorem execute_fst (m : Memory) (ops : List Op) :
    (m.execute ops).1 = (m.applyAll ops).map fun _ => () := by
  rw [execute]
  cases m.applyAll ops <;> rfl

/-- A batch is accepted exactly when the nodes it names before it creates them are there. -/
theorem execute_isOk_iff :
    (m.execute ops).1 = .ok () ↔ ∀ id ∈ externalRefs ops, m.nodes.contains id = true := by
  have hneeded : (∃ m', m.applyAll ops = .ok m') ↔
      ∀ id ∈ neededFrom [] ops, m.nodes.contains id = true := applyAll_ok_iff [] (by simp)
  simp only [Cypher.mem_externalRefs]
  rw [← hneeded, execute_fst]
  cases m.applyAll ops with
  | ok g => simp [Except.map]
  | error e => simp [Except.map]

/-- A batch that is refused names a node that is not there before it creates it. -/
theorem missing_of_execute (h : (m.execute ops).1 = .error e) :
    ∃ id ∈ externalRefs ops, m.nodes.contains id = false ∧ e = .unknownNode id := by
  rw [execute_fst] at h
  cases happly : m.applyAll ops with
  | ok g =>
      rw [happly] at h
      cases h
  | error e' =>
      rw [happly] at h
      cases h
      obtain ⟨id, hid, hmissing, he⟩ := missing_of_applyAll [] (by simp) happly
      exact ⟨id, Cypher.mem_externalRefs.mpr hid, hmissing, he⟩

/-! ## The least node that is not there -/

/-- The least of some nodes that a graph does not have. -/
def leastMissing (m : Memory) (ids : List NodeId) : Option NodeId :=
  (ids.filter fun id => !m.nodes.contains id).min?

/-- The reply to the check of some nodes that is true of a graph: the least one that is not there,
or `-1`. -/
def missingReply (m : Memory) (ids : List NodeId) : Reply :=
  .rows [.integer (match m.leastMissing ids with
    | some id => id
    | none => -1)]

theorem leastMissing_eq_some_iff {ids : List NodeId} {id : NodeId} :
    m.leastMissing ids = some id ↔ IsLeast {j | j ∈ ids ∧ m.nodes.contains j = false} id := by
  rw [leastMissing, List.min?_eq_some_iff]
  simp only [List.mem_filter, Bool.not_eq_true']
  exact Iff.rfl

theorem leastMissing_eq_none_iff {ids : List NodeId} :
    m.leastMissing ids = none ↔ ∀ id ∈ ids, m.nodes.contains id = true := by
  simp [leastMissing, -Table.contains_eq]

end Memory

/-! ## The store behind a database -/

namespace Remote

variable {m : Memory} {r : Remote} {ops : List Op}

/-- The server replies to the check of some nodes with the truth about a graph. -/
def Truthful (r : Remote) (m : Memory) (ids : List NodeId) : Prop :=
  ids ≠ [] → (r.ask true (missingCheck ids)).1 = (m.missingReply ids).answer

/-- The number that a reply to the check is made of is read back. -/
theorem verdict_integer {n : Int} (hlow : -0x8000000000000000 ≤ n)
    (hhigh : n < 0x8000000000000000) :
    verdict (rowsText [.integer n]) =
      if n = -1 then .present else if 0 ≤ n then .missing n.toNat else .unclear := by
  have htext : (rowsText [.integer n]).toList = (toString n).toList := rfl
  rw [verdict, htext, Text.trim_toString, Text.signed?_toString hlow hhigh]

theorem verdict_missing {id : Nat} (h : id < 0x8000000000000000) :
    verdict (rowsText [.integer id]) = .missing id := by
  rw [verdict_integer (by omega) (by omega), if_neg (by omega),
    if_pos (by omega), Int.toNat_natCast]

theorem verdict_present : verdict (rowsText [.integer (-1)]) = .present := by
  rw [verdict_integer (by decide) (by decide), if_pos rfl]

/-- A query that was answered has reached the database. -/
theorem queries_ask {readOnly : Bool} {text reply : String}
    (h : (r.ask readOnly text).1 = .ok reply) :
    (r.ask readOnly text).2.database.queries =
      r.database.queries ++ [⟨readOnly, r.graph, text⟩] := by
  cases houtage : r.database.outage with
  | some reason => simp [ask, Database.ask, houtage] at h
  | none => simp [ask, Database.ask, houtage, Database.queries]

/-- Writing a batch never fails for a node. -/
theorem write_ne_unknownNode (r : Remote) (batch : Nat) (ops : List Op) (id : NodeId) :
    (r.write batch ops).1 ≠ .error (.unknownNode id) := by
  unfold write
  split
  next => exact fun h => by cases h
  next => exact fun h => by cases h

/-- What the check comes to is said by the least node that is not there. -/
theorem ensurePresent_eq {r : Remote} {ids : List NodeId} (hids : ids ≠ [])
    (htruth : r.Truthful m ids) (hbound : ∀ id ∈ ids, id < 0x8000000000000000) (batch : Nat) :
    r.ensurePresent batch ids =
      ((match m.leastMissing ids with
        | some id => .error (.unknownNode id)
        | none => .ok ()),
        (r.ask true (missingCheck ids)).2) := by
  have hreply := htruth hids
  unfold ensurePresent
  rw [if_neg (by simpa using hids)]
  generalize r.ask true (missingCheck ids) = asked at hreply
  obtain ⟨answer, r'⟩ := asked
  cases hleast : m.leastMissing ids with
  | none =>
      simp only [Memory.missingReply, hleast, Reply.answer] at hreply
      simp only [hreply, verdict_present]
  | some id =>
      have hid := hbound id (Memory.leastMissing_eq_some_iff.mp hleast).1.1
      simp only [Memory.missingReply, hleast, Reply.answer] at hreply
      simp only [hreply, verdict_missing hid]

/-- A batch is checked and then written. -/
theorem execute_eq (hops : ops ≠ []) :
    r.execute ops =
      match ensurePresent { r with batches := r.batches + 1 } r.batches (externalRefs ops) with
      | (.error e, r') => (.error e, r')
      | (.ok (), r') => r'.write r.batches ops := by
  have hsome : ¬ (ops.isEmpty = true) := by simpa using hops
  exact if_neg hsome

/-- When a node is not there, a batch is refused for the least one, and nothing is sent but the
check. -/
theorem execute_of_missing (htruth : r.Truthful m (externalRefs ops))
    (hbound : ∀ id ∈ externalRefs ops, id < 0x8000000000000000) {id : NodeId}
    (hleast : m.leastMissing (externalRefs ops) = some id) :
    (r.execute ops).1 = .error (.unknownNode id) ∧
      (r.execute ops).2.database.queries =
        r.database.queries ++ [⟨true, r.graph, missingCheck (externalRefs ops)⟩] := by
  have hids : externalRefs ops ≠ [] := by
    intro hnil
    rw [hnil] at hleast
    cases hleast
  have hops : ops ≠ [] := by
    rintro rfl
    exact hids rfl
  have htruth' : Truthful { r with batches := r.batches + 1 } m (externalRefs ops) := htruth
  rw [execute_eq hops, ensurePresent_eq hids htruth' hbound, hleast]
  exact ⟨rfl, queries_ask (htruth' hids)⟩

/-- When all nodes are there, a batch is refused for none. -/
theorem execute_of_present (htruth : r.Truthful m (externalRefs ops))
    (hbound : ∀ id ∈ externalRefs ops, id < 0x8000000000000000)
    (hleast : m.leastMissing (externalRefs ops) = none) (id : NodeId) :
    (r.execute ops).1 ≠ .error (.unknownNode id) := by
  by_cases hops : ops = []
  · subst hops
    exact fun h => by cases h
  · rw [execute_eq hops]
    by_cases hids : externalRefs ops = []
    · rw [hids]
      exact write_ne_unknownNode _ _ _ id
    · have htruth' : Truthful { r with batches := r.batches + 1 } m (externalRefs ops) := htruth
      rw [ensurePresent_eq hids htruth' hbound, hleast]
      exact write_ne_unknownNode _ _ _ id

end Remote

/-- A batch is accepted by the store in memory exactly when all its `externalRefs` are there, and
refused for one that is not.  If the server tells the truth, the store behind a database refuses the
same batches for a node that is not there.  It names the least one and sends nothing but the
check. -/
theorem stores_refuse_alike (m : Memory) (ops : List Op) :
    ((m.execute ops).1 = .ok () ↔ ∀ id ∈ externalRefs ops, m.nodes.contains id = true) ∧
    (∀ e, (m.execute ops).1 = .error e →
      ∃ id ∈ externalRefs ops, m.nodes.contains id = false ∧ e = .unknownNode id) ∧
    (externalRefs ops).Pairwise (· < ·) ∧
    ∀ r : Remote, (∀ id ∈ externalRefs ops, id < 0x8000000000000000) →
      r.Truthful m (externalRefs ops) →
        ((∃ id, (r.execute ops).1 = .error (.unknownNode id)) ↔
          ∃ e, (m.execute ops).1 = .error e) ∧
        ∀ id, (r.execute ops).1 = .error (.unknownNode id) →
          IsLeast {j | j ∈ externalRefs ops ∧ m.nodes.contains j = false} id ∧
          (r.execute ops).2.database.queries =
            r.database.queries ++ [⟨true, r.graph, missingCheck (externalRefs ops)⟩] := by
  refine ⟨Memory.execute_isOk_iff, fun e he => Memory.missing_of_execute he,
    Cypher.pairwise_externalRefs ops, fun r hbound htruth => ?_⟩
  cases hleast : m.leastMissing (externalRefs ops) with
  | none =>
      have hnone := Remote.execute_of_present htruth hbound hleast
      have hok := Memory.execute_isOk_iff.mpr (Memory.leastMissing_eq_none_iff.mp hleast)
      refine ⟨⟨fun ⟨id, hid⟩ => absurd hid (hnone id), fun ⟨e, he⟩ => ?_⟩,
        fun id hid => absurd hid (hnone id)⟩
      rw [hok] at he
      cases he
  | some id =>
      obtain ⟨hrefused, hqueries⟩ := Remote.execute_of_missing htruth hbound hleast
      have hmin := Memory.leastMissing_eq_some_iff.mp hleast
      refine ⟨⟨fun _ => ?_, fun _ => ⟨id, hrefused⟩⟩, fun j hj => ?_⟩
      · cases hanswer : (m.execute ops).1 with
        | error e => exact ⟨e, rfl⟩
        | ok _ =>
            have hthere := Memory.execute_isOk_iff.mp hanswer id hmin.1.1
            rw [hmin.1.2] at hthere
            cases hthere
      · rw [hrefused] at hj
        cases hj
        exact ⟨hmin, hqueries⟩

/-- Two nodes are not there.  The store in memory comes to the greater one first, and the server
names the smaller one. -/
theorem stores_refuse_alike_two :
    let m : Memory := { nodes := ({} : Memory).nodes.insert 0 ⟨0, "U0", 1, "sh"⟩ }
    let ops : List Op :=
      [.createRel 0 7 .child, .createNode 7 "U7" 2 "ls", .createNode 5 "U5" 3 "cp",
        .updateNode 3 4 "mv", .createRel 5 7 .next]
    let r : Remote := { graph := "procgraph", database := { answers := [.ok "3"] } }
    externalRefs ops = [0, 3, 7] ∧ r.Truthful m (externalRefs ops) ∧
      (m.execute ops).1 = .error (.unknownNode 7) ∧
      (r.execute ops).1 = .error (.unknownNode 3) ∧
      (r.execute ops).2.database.queries.length = 1 := by
  intro m ops r
  have htruth : r.Truthful m (externalRefs ops) := fun _ => by cbv
  obtain ⟨hsame, hleast⟩ := (stores_refuse_alike m ops).2.2.2 r (by decide) htruth
  obtain ⟨id, hid⟩ := hsame.mpr ⟨_, rfl⟩
  obtain ⟨hmin, hqueries⟩ := hleast id hid
  obtain rfl : 3 = id := Option.some.inj (Memory.leastMissing_eq_some_iff.mpr hmin)
  exact ⟨rfl, htruth, rfl, hid, by rw [hqueries]; rfl⟩

end Lineage.Graph

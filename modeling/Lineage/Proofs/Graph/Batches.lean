import Lineage.Graph.Cypher
import Lineage.Session.Ingest

/-!
# Batches on the store in memory

An operation that the store does not refuse has one effect (`Memory.effect`), and it is refused
exactly when a node it needs is not there (`Memory.apply_ok_iff`).  So a list of operations succeeds
on every graph that has the nodes it needs from outside (`Memory.applyAll_ok_iff`), and it may be
cut anywhere (`Memory.applyAll_append_ok`).

`offer_memory` says what a list of batches does to the store when their operations succeed as one
list.  Every batch is accepted, and nothing but the count of batches shows where they were cut.
-/

namespace Lineage.Graph

open Lineage.Graph.Cypher (needs creates neededFrom insertAscending externalRefs)

namespace Memory

/-! ## One operation -/

/-- The graph behind an operation that is not refused. -/
def effect (m : Memory) : Op → Memory
  | .createNode id uuid pid cmdline =>
      { m with nodes := m.nodes.insert id ⟨id, uuid, pid, cmdline⟩ }
  | .createRel src dst cls => { m with relations := m.relations ++ [⟨src, dst, cls⟩] }
  | .updateNode id pid cmdline =>
      { m with nodes := m.nodes.modify id fun p => { p with pid := pid, cmdline := cmdline } }

theorem apply_ok_iff {m m' : Memory} {op : Op} :
    m.apply op = .ok m' ↔
      (∀ id ∈ needs op, m.nodes.contains id = true) ∧ m.effect op = m' := by
  cases op with
  | createNode id uuid pid cmdline =>
      simp [apply, needs, effect]
  | createRel src dst cls =>
      cases hs : m.nodes.contains src with
      | false => simp [apply, needs, hs, -Table.contains_eq]
      | true =>
          cases hd : m.nodes.contains dst with
          | false => simp [apply, needs, hs, hd, -Table.contains_eq]
          | true => simp [apply, needs, hs, hd, effect, -Table.contains_eq]
  | updateNode id pid cmdline =>
      cases hi : m.nodes.contains id with
      | false => simp [apply, needs, hi, -Table.contains_eq]
      | true => simp [apply, needs, hi, effect, -Table.contains_eq]

/-- An operation adds the node it creates and takes none away. -/
theorem contains_effect (m : Memory) (op : Op) (id : NodeId) :
    (m.effect op).nodes.contains id = true ↔
      m.nodes.contains id = true ∨ id ∈ creates op := by
  cases op with
  | createNode i uuid pid cmdline =>
      by_cases hi : id = i <;> simp [effect, creates, hi]
  | createRel src dst cls => simp [effect, creates]
  | updateNode i pid cmdline =>
      by_cases hi : id = i <;> simp [effect, creates, hi]

/-- The count of batches does not matter to an operation. -/
theorem apply_withBatches (m : Memory) (n : Nat) (op : Op) :
    { m with batches := n }.apply op = (m.apply op).map fun g => { g with batches := n } := by
  cases op with
  | createNode id uuid pid cmdline => rfl
  | createRel src dst cls =>
      simp only [apply]
      split
      · rfl
      · split <;> rfl
  | updateNode id pid cmdline =>
      simp only [apply]
      split <;> rfl

/-! ## Some operations -/

@[simp] theorem applyAll_nil (m : Memory) : m.applyAll [] = .ok m := rfl

theorem applyAll_cons_ok {m m' : Memory} {op : Op} {ops : List Op} :
    m.applyAll (op :: ops) = .ok m' ↔
      (∀ id ∈ needs op, m.nodes.contains id = true) ∧
        (m.effect op).applyAll ops = .ok m' := by
  rw [applyAll]
  cases h : m.apply op with
  | error e =>
      have hn : ¬ ∀ id ∈ needs op, m.nodes.contains id = true := by
        intro hn
        rw [apply_ok_iff.mpr ⟨hn, rfl⟩] at h
        cases h
      constructor
      · intro h'
        cases h'
      · intro h'
        exact absurd h'.1 hn
  | ok g =>
      obtain ⟨hn, rfl⟩ := apply_ok_iff.mp h
      constructor
      · intro h'
        exact ⟨hn, h'⟩
      · intro h'
        exact h'.2

/-- Operations that succeed succeed in two parts. -/
theorem applyAll_append_ok {m m' : Memory} {xs ys : List Op} :
    m.applyAll (xs ++ ys) = .ok m' ↔ ∃ g, m.applyAll xs = .ok g ∧ g.applyAll ys = .ok m' := by
  induction xs generalizing m with
  | nil => simp
  | cons op xs ih =>
      rw [List.cons_append, applyAll_cons_ok, ih]
      constructor
      · rintro ⟨hn, g, hx, hy⟩
        exact ⟨g, applyAll_cons_ok.mpr ⟨hn, hx⟩, hy⟩
      · rintro ⟨g, hx, hy⟩
        obtain ⟨hn, hx⟩ := applyAll_cons_ok.mp hx
        exact ⟨hn, g, hx, hy⟩

/-- The graph behind operations that succeed. -/
theorem foldl_effect_of_applyAll {m m' : Memory} {ops : List Op} (h : m.applyAll ops = .ok m') :
    ops.foldl effect m = m' := by
  induction ops generalizing m with
  | nil => cases h; rfl
  | cons op ops ih => exact ih (applyAll_cons_ok.mp h).2

/-- Some operations add the nodes they create and take none away. -/
theorem contains_applyAll {m m' : Memory} {ops : List Op} (h : m.applyAll ops = .ok m')
    (id : NodeId) :
    m'.nodes.contains id = true ↔ m.nodes.contains id = true ∨ id ∈ ops.flatMap creates := by
  induction ops generalizing m with
  | nil => cases h; simp
  | cons op ops ih =>
      rw [ih (applyAll_cons_ok.mp h).2, contains_effect, List.flatMap_cons, List.mem_append,
        or_assoc]

/-- A node that an operation does not create keeps its identity. -/
theorem uuid_effect {m : Memory} {op : Op} {id : NodeId} {p : Node} (hid : id ∉ creates op)
    (h : m.nodes.get? id = some p) :
    ∃ p', (m.effect op).nodes.get? id = some p' ∧ p'.uuid = p.uuid := by
  cases op with
  | createNode i uuid pid cmdline =>
      have hne : id ≠ i := fun heq => hid (List.mem_singleton.mpr heq)
      exact ⟨p, by simp [effect, hne, h], rfl⟩
  | createRel src dst cls => exact ⟨p, h, rfl⟩
  | updateNode i pid cmdline =>
      by_cases hi : id = i
      · subst hi
        exact ⟨{ p with pid := pid, cmdline := cmdline }, by simp [effect, h], rfl⟩
      · exact ⟨p, by simp [effect, hi, h], rfl⟩

/-- A node that some operations do not create keeps its identity. -/
theorem uuid_applyAll {m m' : Memory} {ops : List Op} (happly : m.applyAll ops = .ok m')
    {id : NodeId} {p : Node} (hid : id ∉ ops.flatMap creates) (h : m.nodes.get? id = some p) :
    ∃ p', m'.nodes.get? id = some p' ∧ p'.uuid = p.uuid := by
  induction ops generalizing m p with
  | nil =>
      cases happly
      exact ⟨p, h, rfl⟩
  | cons op ops ih =>
      rw [List.flatMap_cons, List.mem_append, not_or] at hid
      obtain ⟨p₁, hp₁, huuid₁⟩ := uuid_effect hid.1 h
      obtain ⟨p', hp', huuid'⟩ := ih (applyAll_cons_ok.mp happly).2 hid.2 hp₁
      exact ⟨p', hp', huuid'.trans huuid₁⟩

/-- Relations are only ever added behind the others. -/
theorem relations_applyAll {m m' : Memory} {ops : List Op} (happly : m.applyAll ops = .ok m') :
    m.relations <+: m'.relations := by
  induction ops generalizing m with
  | nil =>
      cases happly
      exact List.prefix_refl _
  | cons op ops ih =>
      refine .trans ?_ (ih (applyAll_cons_ok.mp happly).2)
      cases op with
      | createRel src dst cls => exact List.prefix_append ..
      | _ => exact List.prefix_refl _

/-- The count of batches does not matter to operations, whether they succeed or not. -/
theorem applyAll_withBatches_eq (m : Memory) (n : Nat) (ops : List Op) :
    { m with batches := n }.applyAll ops =
      (m.applyAll ops).map fun g => { g with batches := n } := by
  induction ops generalizing m with
  | nil => rfl
  | cons op ops ih =>
      rw [applyAll, applyAll, apply_withBatches]
      cases m.apply op with
      | error e => rfl
      | ok g => exact ih g

theorem applyAll_withBatches {m m' : Memory} {ops : List Op} (h : m.applyAll ops = .ok m')
    (n : Nat) : { m with batches := n }.applyAll ops = .ok { m' with batches := n } := by
  rw [applyAll_withBatches_eq, h]
  rfl

/-! ## Nodes from outside -/

theorem not_mem_neededFrom {id : NodeId} {created : List NodeId} {ops : List Op}
    (h : id ∈ created) : id ∉ neededFrom created ops := by
  induction ops generalizing created with
  | nil => simp [neededFrom]
  | cons op ops ih =>
      rw [neededFrom, List.mem_append]
      rintro (hid | hid)
      · have hc := (List.mem_filter.mp hid).2
        simp [h] at hc
      · exact ih (List.mem_append_right _ h) hid

/-- Operations succeed exactly when the nodes they need from outside are there, where `created` are
nodes that are there in any case. -/
theorem applyAll_ok_iff {m : Memory} (created : List NodeId) {ops : List Op}
    (hc : ∀ id ∈ created, m.nodes.contains id = true) :
    (∃ m', m.applyAll ops = .ok m') ↔
      ∀ id ∈ neededFrom created ops, m.nodes.contains id = true := by
  induction ops generalizing m created with
  | nil => simp [neededFrom]
  | cons op ops ih =>
      have hc' : ∀ id ∈ creates op ++ created, (m.effect op).nodes.contains id = true := by
        intro id hid
        rw [contains_effect]
        cases List.mem_append.mp hid with
        | inl h => exact .inr h
        | inr h => exact .inl (hc id h)
      have hstep : (∃ m', m.applyAll (op :: ops) = .ok m') ↔
          (∀ id ∈ needs op, m.nodes.contains id = true) ∧
            ∃ m', (m.effect op).applyAll ops = .ok m' := by
        simp only [applyAll_cons_ok, exists_and_left]
      rw [hstep, ih _ hc', neededFrom]
      constructor
      · rintro ⟨hn, hr⟩ id hid
        cases List.mem_append.mp hid with
        | inl h => exact hn id (List.mem_filter.mp h).1
        | inr h =>
            cases (contains_effect m op id).mp (hr id h) with
            | inl h' => exact h'
            | inr h' => exact absurd h (not_mem_neededFrom (List.mem_append_left _ h'))
      · intro hall
        refine ⟨fun id hid => ?_, fun id hid => ?_⟩
        · by_cases hcr : id ∈ created
          · exact hc id hcr
          · exact hall id (List.mem_append_left _
              (List.mem_filter.mpr ⟨hid, by simpa using hcr⟩))
        · exact (contains_effect m op id).mpr (.inl (hall id (List.mem_append_right _ hid)))

end Memory

namespace Cypher

theorem mem_insertAscending {id i : NodeId} {is : List NodeId} :
    id ∈ insertAscending i is ↔ id = i ∨ id ∈ is := by
  induction is with
  | nil => simp [insertAscending]
  | cons j is ih =>
      rw [insertAscending]
      split
      · simp
      · split
        · rename_i hij
          simp [hij]
        · rw [List.mem_cons, ih, List.mem_cons, or_left_comm]

theorem mem_externalRefs {id : NodeId} {ops : List Op} :
    id ∈ externalRefs ops ↔ id ∈ neededFrom [] ops := by
  rw [externalRefs]
  generalize neededFrom [] ops = ids
  induction ids with
  | nil => rfl
  | cons i ids ih => rw [List.foldr_cons, mem_insertAscending, ih, List.mem_cons]

/-- In a stream that succeeds on the empty graph, a batch names only nodes that it creates or that
an earlier part of the stream creates. -/
theorem created_of_mem_externalRefs {g : Memory} {before batch after : List Op}
    (h : ({} : Memory).applyAll (before ++ (batch ++ after)) = .ok g) {id : NodeId}
    (hid : id ∈ externalRefs batch) : id ∈ before.flatMap creates := by
  obtain ⟨g₁, h₁, h₂⟩ := Memory.applyAll_append_ok.mp h
  obtain ⟨g₂, h₂, _⟩ := Memory.applyAll_append_ok.mp h₂
  have hneeded := (Memory.applyAll_ok_iff [] (by simp)).mp ⟨g₂, h₂⟩
  have hthere := hneeded id (mem_externalRefs.mp hid)
  cases (Memory.contains_applyAll h₁ id).mp hthere with
  | inl hempty => cases hempty
  | inr hcreated => exact hcreated

end Cypher

/-! ## Batches -/

/-- When the operations of some batches succeed as one list, every batch is accepted. -/
theorem offer_memory {m g : Memory} {batches : List (List Op)}
    (h : m.applyAll batches.flatten = .ok g) :
    Session.offer m batches =
      { store := { g with batches := m.batches + batches.length }, accepted := batches } := by
  induction batches generalizing m g with
  | nil =>
      cases h
      rfl
  | cons batch batches ih =>
      rw [List.flatten_cons] at h
      obtain ⟨g₁, h₁, h₂⟩ := Memory.applyAll_append_ok.mp h
      have hx : GraphStore.execute m batch = (.ok (), { g₁ with batches := m.batches + 1 }) := by
        change m.execute batch = _
        rw [Memory.execute, h₁]
      have hrest := ih (Memory.applyAll_withBatches h₂ (m.batches + 1))
      rw [Session.offer, hx]
      simp only [hrest, List.length_cons, Nat.add_assoc, Nat.add_comm 1]

end Lineage.Graph

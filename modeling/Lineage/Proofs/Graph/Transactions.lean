import Lineage.Proofs.Graph.MemoryStore

/-!
# Transactions

A graph serves batches one after the other and goes on behind one that it refuses (`Memory.serve`).
Each batch is a transaction.  So what is left in the end is the replay of the batches that were
accepted (`exists_replay`), and every node and every relation of it is `InOrder`.

Where one batch ends and the next one begins shows in nothing but the count of batches.  The count
in turn has no part in what an operation does, so two graphs that differ in it alone serve alike
(`serve_withBatches`).
-/

namespace Lineage.Graph

open Lineage.Graph.Cypher (needs)

namespace Memory

variable {m m₁ m₂ : Memory}

/-! ## Nodes and relations -/

/-- Every node is kept under its own id, and relations are only between nodes that are there. -/
structure InOrder (m : Memory) : Prop where
  id_eq : ∀ {id p}, m.nodes.get? id = some p → p.id = id
  src_mem : ∀ {r}, r ∈ m.relations → m.nodes.contains r.src = true
  dst_mem : ∀ {r}, r ∈ m.relations → m.nodes.contains r.dst = true

theorem inOrder_empty : InOrder {} where
  id_eq h := by cases h
  src_mem h := by cases h
  dst_mem h := by cases h

/-- An operation that has the nodes it needs keeps a graph in order. -/
theorem InOrder.effect (h : m.InOrder) {op : Op}
    (hneeds : ∀ id ∈ needs op, m.nodes.contains id = true) : (m.effect op).InOrder := by
  have hkept : ∀ id, m.nodes.contains id = true → (m.effect op).nodes.contains id = true :=
    fun id hid => (contains_effect m op id).mpr (.inl hid)
  cases op with
  | createNode i uuid pid cmdline =>
      refine ⟨fun {id p} hp => ?_, fun hr => hkept _ (h.src_mem hr),
        fun hr => hkept _ (h.dst_mem hr)⟩
      simp only [Memory.effect, Table.get?_insert] at hp
      split at hp
      next same =>
        cases hp
        exact same.symm
      next => exact h.id_eq hp
  | createRel src dst cls =>
      refine ⟨h.id_eq, fun hr => ?_, fun hr => ?_⟩
      · rcases List.mem_append.mp hr with hold | hnew
        · exact h.src_mem hold
        · obtain rfl := List.mem_singleton.mp hnew
          exact hneeds src (List.mem_cons_self ..)
      · rcases List.mem_append.mp hr with hold | hnew
        · exact h.dst_mem hold
        · obtain rfl := List.mem_singleton.mp hnew
          exact hneeds dst (List.mem_cons_of_mem _ (List.mem_singleton_self dst))
  | updateNode i pid cmdline =>
      refine ⟨fun {id p} hp => ?_, fun hr => hkept _ (h.src_mem hr),
        fun hr => hkept _ (h.dst_mem hr)⟩
      simp only [Memory.effect, Table.get?_modify] at hp
      split at hp
      next =>
        obtain ⟨q, hq, rfl⟩ := Option.map_eq_some_iff.mp hp
        exact h.id_eq (p := q) hq
      next => exact h.id_eq hp

theorem InOrder.applyAll (h : m.InOrder) {ops : List Op} (happly : m.applyAll ops = .ok m₁) :
    m₁.InOrder := by
  induction ops generalizing m with
  | nil =>
      cases happly
      exact h
  | cons op ops ih =>
      obtain ⟨hneeds, hrest⟩ := applyAll_cons_ok.mp happly
      exact ih (h.effect hneeds) hrest

/-! ## One batch -/

/-- A batch is applied and counted, or it is refused and leaves the graph alone. -/
theorem execute_cases (m : Memory) (batch : List Op) :
    (∃ g, m.applyAll batch = .ok g ∧
      m.execute batch = (.ok (), { g with batches := m.batches + 1 })) ∨
      ∃ e, m.applyAll batch = .error e ∧ m.execute batch = (.error e, m) := by
  unfold execute
  cases m.applyAll batch with
  | ok g => exact .inl ⟨g, rfl, rfl⟩
  | error e => exact .inr ⟨e, rfl, rfl⟩

theorem InOrder.execute (h : m.InOrder) (batch : List Op) : (m.execute batch).2.InOrder := by
  rcases m.execute_cases batch with ⟨g, happly, heq⟩ | ⟨e, _, heq⟩ <;> rw [heq]
  · exact { h.applyAll happly with }
  · exact h

/-- Two batches that are accepted one after the other are accepted as one. -/
theorem execute_append {xs ys : List Op} (hx : m.execute xs = (.ok (), m₁))
    (hy : m₁.execute ys = (.ok (), m₂)) :
    m.execute (xs ++ ys) = (.ok (), { m₂ with batches := m.batches + 1 }) := by
  obtain ⟨g₁, h₁, rfl⟩ := execute_ok_iff.mp hx
  obtain ⟨g₂, h₂, rfl⟩ := execute_ok_iff.mp hy
  have hrest := applyAll_withBatches h₂ g₁.batches
  exact execute_ok_iff.mpr ⟨_, applyAll_append_ok.mpr ⟨g₁, h₁, hrest⟩, rfl⟩

/-! ## Many batches -/

/-- The answers to some batches that are offered one after the other, and the graph in the end. -/
def serve : Memory → List (List Op) → List (Except StoreError Unit) × Memory
  | m, [] => ([], m)
  | m, batch :: batches =>
    let later := serve (m.execute batch).2 batches
    ((m.execute batch).1 :: later.1, later.2)

/-- The batches that got a good answer. -/
def acceptedOf (batches : List (List Op)) (answers : List (Except StoreError Unit)) :
    List (List Op) :=
  ((batches.zip answers).filter fun p => p.2.isOk).map Prod.fst

theorem serve_cons {batch : List Op} {answer : Except StoreError Unit}
    (h : m.execute batch = (answer, m₁)) (batches : List (List Op)) :
    m.serve (batch :: batches) = (answer :: (m₁.serve batches).1, (m₁.serve batches).2) := by
  rw [serve, h]

theorem serve_append (m : Memory) (xs ys : List (List Op)) :
    m.serve (xs ++ ys) =
      ((m.serve xs).1 ++ ((m.serve xs).2.serve ys).1, ((m.serve xs).2.serve ys).2) := by
  induction xs generalizing m with
  | nil => rfl
  | cons batch xs ih => rw [List.cons_append, serve, ih, serve, List.cons_append]

theorem InOrder.serve (h : m.InOrder) (batches : List (List Op)) : (m.serve batches).2.InOrder := by
  induction batches generalizing m with
  | nil => exact h
  | cons batch batches ih => exact ih (h.execute batch)

/-- What is left behind some batches is the replay of those that were accepted. -/
theorem exists_replay (m : Memory) (batches : List (List Op)) :
    ∃ g, m.applyAll (acceptedOf batches (m.serve batches).1).flatten = .ok g ∧
      (m.serve batches).2 =
        { g with batches := m.batches + (acceptedOf batches (m.serve batches).1).length } := by
  induction batches generalizing m with
  | nil => exact ⟨m, rfl, rfl⟩
  | cons batch batches ih =>
      rcases m.execute_cases batch with ⟨g₁, happly, heq⟩ | ⟨e, _, heq⟩
      · obtain ⟨g, hrest, hstore⟩ := ih { g₁ with batches := m.batches + 1 }
        have haccepted : acceptedOf (batch :: batches) (m.serve (batch :: batches)).1 =
            batch :: acceptedOf batches
              (Memory.serve { g₁ with batches := m.batches + 1 } batches).1 := by
          rw [serve_cons heq]
          rfl
        rw [haccepted, serve_cons heq]
        refine ⟨{ g with batches := g₁.batches }, ?_, ?_⟩
        · exact applyAll_append_ok.mpr ⟨g₁, happly, applyAll_withBatches hrest g₁.batches⟩
        · rw [hstore, List.length_cons, Nat.add_assoc, Nat.add_comm 1]
      · have haccepted : acceptedOf (batch :: batches) (m.serve (batch :: batches)).1 =
            acceptedOf batches (m.serve batches).1 := by
          rw [serve_cons heq]
          rfl
        rw [haccepted, serve_cons heq]
        exact ih m

/-- Two graphs that differ in the count of batches give the same answers and go on to differ in it
alone. -/
theorem serve_withBatches (m : Memory) (n : Nat) (batches : List (List Op)) :
    ∃ k, ({ m with batches := n }.serve batches).1 = (m.serve batches).1 ∧
      (m.serve batches).2.batches = m.batches + k ∧
        ({ m with batches := n }.serve batches).2 =
          { (m.serve batches).2 with batches := n + k } := by
  induction batches generalizing m n with
  | nil => exact ⟨0, rfl, rfl, rfl⟩
  | cons batch batches ih =>
      have hshift := applyAll_withBatches_eq m n batch
      rcases m.execute_cases batch with ⟨g, happly, heq⟩ | ⟨e, happly, heq⟩
      · rw [happly] at hshift
        have heq' : { m with batches := n }.execute batch = (.ok (), { g with batches := n + 1 }) :=
          execute_ok_iff.mpr ⟨_, hshift, rfl⟩
        obtain ⟨k, hanswers, hcount, hgraph⟩ := ih { g with batches := m.batches + 1 } (n + 1)
        rw [serve_cons heq, serve_cons heq']
        refine ⟨1 + k, congrArg (.ok () :: ·) hanswers, ?_, ?_⟩
        · rw [hcount, Nat.add_assoc]
        · rw [hgraph, Nat.add_assoc]
      · rw [happly] at hshift
        have heq' : { m with batches := n }.execute batch =
            (.error e, { m with batches := n }) := by
          unfold execute
          rw [hshift]
          rfl
        obtain ⟨k, hanswers, hcount, hgraph⟩ := ih m n
        rw [serve_cons heq, serve_cons heq']
        exact ⟨k, congrArg (.error e :: ·) hanswers, hcount, hgraph⟩

/-- Two batches that are accepted one after the other could have been one.  The answers behind them
stay the same, and so does the graph but for its count. -/
theorem serve_joined {xs ys : List Op} (hx : m.execute xs = (.ok (), m₁))
    (hy : m₁.execute ys = (.ok (), m₂)) (after : List (List Op)) :
    ∃ answers, (m.serve (xs :: ys :: after)).1 = .ok () :: .ok () :: answers ∧
      (m.serve ((xs ++ ys) :: after)).1 = .ok () :: answers ∧
        (m.serve (xs :: ys :: after)).2 =
          { (m.serve ((xs ++ ys) :: after)).2 with
            batches := (m.serve ((xs ++ ys) :: after)).2.batches + 1 } := by
  have hcount : m₂.batches = m.batches + 1 + 1 := by
    obtain ⟨_, _, rfl⟩ := execute_ok_iff.mp hx
    obtain ⟨_, _, rfl⟩ := execute_ok_iff.mp hy
    rfl
  obtain ⟨k, hanswers, hjoined, happart⟩ :=
    serve_withBatches { m₂ with batches := m.batches + 1 } m₂.batches after
  rw [serve_cons hx, serve_cons hy, serve_cons (execute_append hx hy)]
  refine ⟨(m₂.serve after).1, rfl, ?_, ?_⟩
  · rw [← hanswers]
  · rw [hjoined, happart, hcount, Nat.add_right_comm]

/-- Whatever batches an empty graph was offered, accepted or not, it is the replay of the accepted
ones, it counts them, and it is in order.  A further batch that is refused changes nothing.  And two
further batches that are accepted could have been one. -/
theorem serve_replays (calls : List (List Op)) :
    (∃ g, ({} : Memory).applyAll (acceptedOf calls (serve {} calls).1).flatten = .ok g ∧
      (serve {} calls).2 = { g with batches := (acceptedOf calls (serve {} calls).1).length }) ∧
    (serve {} calls).2.InOrder ∧
    (∀ batch e m', (serve {} calls).2.execute batch = (.error e, m') →
      m' = (serve {} calls).2) ∧
    ∀ xs ys m₁ m₂, (serve {} calls).2.execute xs = (.ok (), m₁) →
      m₁.execute ys = (.ok (), m₂) →
      ∀ after, ∃ answers,
        (serve {} (calls ++ xs :: ys :: after)).1 =
          (serve {} calls).1 ++ .ok () :: .ok () :: answers ∧
        (serve {} (calls ++ (xs ++ ys) :: after)).1 = (serve {} calls).1 ++ .ok () :: answers ∧
        (serve {} (calls ++ xs :: ys :: after)).2 =
          { (serve {} (calls ++ (xs ++ ys) :: after)).2 with
            batches := (serve {} (calls ++ (xs ++ ys) :: after)).2.batches + 1 } := by
  refine ⟨?_, inOrder_empty.serve calls, fun batch e m' h => eq_of_execute_error h, ?_⟩
  · obtain ⟨g, happly, hgraph⟩ := exists_replay {} calls
    refine ⟨g, happly, ?_⟩
    rw [hgraph, Nat.zero_add]
  · intro xs ys m₁ m₂ hx hy after
    obtain ⟨answers, hapart, hjoined, hgraph⟩ := serve_joined hx hy after
    refine ⟨answers, ?_, ?_, ?_⟩
    · rw [serve_append, hapart]
    · rw [serve_append, hjoined]
    · rw [serve_append, serve_append]
      exact hgraph

/-- A batch fails in its middle, and two that come later are joined in front of one that fails. -/
theorem serve_replays_fork :
    let failing : List Op := [.createNode 5 "U5" 5 "", .createRel 5 9 .child]
    let calls : List (List Op) := [[.createNode 0 "U0" 1 "sh"], failing]
    let xs : List Op := [.createNode 1 "U1" 2 "sh"]
    let ys : List Op := [.createRel 0 1 .child, .updateNode 0 1 "sh -l"]
    (serve {} calls).1 = [.ok (), .error (.unknownNode 9)] ∧ (serve {} calls).2.batches = 1 ∧
      (serve {} calls).2.InOrder ∧
      (serve {} (calls ++ [xs ++ ys, failing])).2.nodes =
        (serve {} (calls ++ [xs, ys, failing])).2.nodes ∧
      (serve {} (calls ++ [xs ++ ys, failing])).2.batches = 2 ∧
      (serve {} (calls ++ [xs, ys, failing])).2.batches = 3 := by
  intro failing calls xs ys
  obtain ⟨_, horder, _, hjoined⟩ := serve_replays calls
  obtain ⟨answers, _, _, hgraph⟩ := hjoined xs ys _ _ rfl rfl [failing]
  exact ⟨rfl, rfl, horder, by rw [hgraph], rfl, rfl⟩

end Memory

end Lineage.Graph

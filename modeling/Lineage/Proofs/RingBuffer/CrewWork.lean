import Lineage.Proofs.RingBuffer.Lineup
import Lineage.RingBuffer.Crew
import Mathlib.Data.List.Perm.Subperm
import Mathlib.Data.List.Sort

/-!
# What a crew brings about

The turns of a crew are steps of a machine that keeps the rules, and what its consumers have taken
is what these steps return (`Crew.Follows`).  A producer stores no item more often than its calls
name it, and a ring buffer returns each position once.  So nobody takes an item twice, however many
turns were taken (`Crew.run_items_nodup`), and when nobody has anything left to do, every item was
taken (`Crew.run_items_of_isDone`).
-/

namespace Lineage.RingBuffer

open Machine (IsFree MayStart Run Step)

variable {α : Type}

/-! ## Different items -/

/-- The item that a step stores. -/
def Mark.stored? : Mark α → Option α
  | .stored _ _ a => some a
  | _ => none

/-- The items that some steps have returned. -/
def returnedItems (marks : List (Mark α)) : List α :=
  (marks.filterMap Mark.returned?).map Prod.snd

theorem returnedItems_snoc (marks : List (Mark α)) (mark : Mark α) :
    returnedItems (marks ++ [mark]) =
      returnedItems marks ++ mark.returned?.toList.map Prod.snd := by
  cases h : mark.returned? <;> simp [returnedItems, h]

/-- What is stored for a position was stored by a step. -/
theorem mem_of_stored {marks : List (Mark α)} {position id : Nat} {a : α}
    (h : (ledger marks).stored position = some (id, a)) : .stored id position a ∈ marks := by
  induction marks using List.reverseRecOn with
  | nil => cases h
  | append_singleton marks mark ih =>
      rw [ledger_snoc] at h
      cases mark with
      | stored id' position' item =>
          rcases Ledger.stored_of_stored h with ⟨rfl, heq⟩ | ⟨_, hbefore⟩
          · cases heq
            exact List.mem_append_right _ (List.mem_singleton_self _)
          · exact List.mem_append_left _ (ih hbefore)
      | _ => exact List.mem_append_left _ (ih h)

/-- Where no item is stored twice, each is stored for one position. -/
theorem position_eq_of_stored {marks : List (Mark α)} (h : (marks.filterMap Mark.stored?).Nodup)
    {i j position position' : Nat} {a : α} (hmem : .stored i position a ∈ marks)
    (hmem' : .stored j position' a ∈ marks) : position = position' := by
  have hitem : (Mark.stored i position a).stored? = some a := rfl
  obtain ⟨before, after, rfl⟩ := List.append_of_mem hmem
  rw [List.filterMap_append, List.filterMap_cons_some hitem, List.nodup_middle, List.nodup_cons,
    List.mem_append] at h
  rcases List.mem_append.mp hmem' with hbefore | hrest
  · exact (h.1 (.inl (List.mem_filterMap.mpr ⟨_, hbefore, rfl⟩))).elim
  · rcases List.mem_cons.mp hrest with heq | hafter
    · cases heq
      rfl
    · exact (h.1 (.inr (List.mem_filterMap.mpr ⟨_, hafter, rfl⟩))).elim

/-- What was returned was stored for a position that has been returned. -/
theorem Lawful.exists_stored {capacity : Nat} {marks : List (Mark α)} (h : Lawful capacity marks)
    {a : α} (ha : a ∈ returnedItems marks) :
    ∃ id position, .stored id position a ∈ marks ∧
      (ledger marks).returned position = true := by
  induction marks using List.reverseRecOn with
  | nil => cases ha
  | append_singleton marks mark ih =>
      obtain ⟨hinit, hmark⟩ := h.init
      rw [returnedItems_snoc, List.mem_append] at ha
      rcases ha with hbefore | hlast
      · obtain ⟨id, position, hstored, hreturned⟩ := ih hinit hbefore
        refine ⟨id, position, List.mem_append_left _ hstored, ?_⟩
        rw [← mem_returnedPositions, returnedPositions_snoc]
        exact List.mem_append_left _ (mem_returnedPositions.mpr hreturned)
      · cases mark with
        | returned id position item =>
            obtain ⟨j, b, rfl, -, hstored⟩ := hmark.2.2
            obtain rfl : a = b := List.mem_singleton.mp hlast
            refine ⟨j, position, List.mem_append_left _ (mem_of_stored hstored), ?_⟩
            rw [← mem_returnedPositions, returnedPositions_snoc]
            exact List.mem_append_right _ (List.mem_singleton_self _)
        | _ => cases hlast

/-- Where no item is stored twice, none is returned twice. -/
theorem Lawful.nodup_returnedItems {capacity : Nat} {marks : List (Mark α)}
    (h : Lawful capacity marks) (hstored : (marks.filterMap Mark.stored?).Nodup) :
    (returnedItems marks).Nodup := by
  induction marks using List.reverseRecOn with
  | nil => exact List.nodup_nil
  | append_singleton marks mark ih =>
      obtain ⟨hinit, hmark⟩ := h.init
      rw [List.filterMap_append] at hstored
      have hbefore := hstored.of_append_left
      rw [returnedItems_snoc]
      refine List.nodup_append.mpr ⟨ih hinit hbefore, ?_, fun a ha b hb => ?_⟩
      · cases mark.returned? <;> simp
      · cases mark with
        | returned id position item =>
            obtain ⟨j, x, rfl, -, hx⟩ := hmark.2.2
            obtain rfl : b = x := List.mem_singleton.mp hb
            rintro rfl
            obtain ⟨i, position', ha', hreturned⟩ := hinit.exists_stored ha
            -- The item was stored for one position, which is now returned again.
            obtain rfl := position_eq_of_stored hbefore (mem_of_stored hx) ha'
            cases hreturned.symm.trans hmark.2.1
        | _ => cases hb

/-! ## What a producer has yet to store -/

/-- The item that is claimed for. -/
def Claim.item? : Claim α → Option α
  | .push a => some a
  | .reserve _ => none

/-- The item of a call. -/
def ProducerCall.item? : ProducerCall α → Option α
  | .push a | .fill a _ => some a
  | .reserve _ | .release => none

/-- The item that a call has yet to store. -/
def ProducerPoint.item? : ProducerPoint α → Option α
  | .check c | .readHead c | .announce c _ | .claim c | .publish c _ | .compare c _
  | .readTail c _ | .scan c _ _ _ | .keep c _ _ => c.item?
  | .write a _ | .checkOffset a _ | .readBase a _ | .fill a _ => some a
  | _ => none

theorem ProducerCall.item?_start (call : ProducerCall α) : call.start.item? = call.item? := by
  cases call <;> rfl

/-- The item that the rest of a call has yet to store. -/
def Progress.item? : Progress (ProducerPoint α) α → Option α
  | .next p => p.item?
  | .ended _ => none

/-- A step stores the item of its call, leaves it for later or drops it. -/
theorem item?_stepProducer (r : RingBuffer α) (id : Nat) (p : ProducerPoint α) :
    ((r.producerMark id p).stored?.toList ++ (r.stepProducer id p).2.item?.toList).Sublist
      p.item?.toList := by
  cases p with
  | check c =>
      simp only [stepProducer]
      split
      · exact List.nil_sublist _
      · exact List.Sublist.refl _
  | compare c base =>
      simp only [stepProducer]
      split
      · exact List.Sublist.refl _
      · cases c <;> exact List.Sublist.refl _
  | scan c base floor next =>
      simp only [stepProducer]
      split <;> exact List.Sublist.refl _
  | checkOffset item offset =>
      simp only [stepProducer]
      split
      · exact List.nil_sublist _
      · exact List.Sublist.refl _
  | fill item position =>
      simp only [stepProducer]
      split <;> exact List.Sublist.refl _
  | readFilled reserved =>
      simp only [stepProducer]
      split <;> exact List.Sublist.refl _
  | _ => exact List.Sublist.refl _

/-! ## The machine of a crew -/

/-- The call of a producer. -/
def Supplier.activity? (s : Supplier α) : Option (Activity α) := s.point.map (.producing s.id)

/-- The call of a consumer. -/
def Taker.activity? (t : Taker α) : Option (Activity α) := t.point.map (.consuming t.id)

/-- The items that a producer has yet to store. -/
def Supplier.unstored (s : Supplier α) : List α :=
  (s.point.bind ProducerPoint.item?).toList ++ s.calls.filterMap ProducerCall.item?

/-- What a turn of a producer is: nothing, the start of a call or a step of one. -/
theorem Supplier.turn_cases (r : RingBuffer α) (s : Supplier α) :
    s.turn r = (r, s) ∨
      (∃ call calls, s.point = none ∧ s.calls = call :: calls ∧
        s.turn r = (r, { s with point := some call.start, calls := calls })) ∨
      ∃ p p', s.point = some p ∧
        s.turn r = ((r.stepActivity (.producing s.id p)).1, { s with point := p' }) ∧
        (r.stepActivity (.producing s.id p)).2 = p'.map (.producing s.id) ∧
        p'.bind ProducerPoint.item? = (r.stepProducer s.id p).2.item? := by
  obtain ⟨id, point, calls⟩ := s
  cases point with
  | none =>
      cases calls with
      | nil => exact .inl rfl
      | cons call calls => exact .inr (.inl ⟨call, calls, rfl, rfl, rfl⟩)
  | some p =>
      refine .inr (.inr ⟨p, ?_⟩)
      simp only [Supplier.turn, stepActivity]
      rcases r.stepProducer id p with ⟨r', q | o⟩
      · exact ⟨some q, trivial, rfl, rfl, rfl⟩
      · exact ⟨none, trivial, rfl, rfl, rfl⟩

/-- A consumer's step returns the item that its call ends with. -/
theorem returned?_consumerMark (r : RingBuffer α) (id : Nat) (p : ConsumerPoint α) :
    (r.consumerMark id p).returned? =
      match (r.stepConsumer id p).2 with
      | .ended (.item a) => some (id, a)
      | _ => none := by
  cases p with
  | compare position =>
      by_cases h : r.firstHead ≤ position <;>
        simp only [stepConsumer, h, if_true, if_false] <;> rfl
  | scan position floor next =>
      by_cases h : next < r.producers.size <;>
        simp only [stepConsumer, h, if_true, if_false] <;> rfl
  | rest position item => cases item <;> rfl
  | _ => rfl

/-- What a turn of a consumer is: nothing, the start of a call for an item that is wanted, or a step
of one.  A call that does not fail goes on, or it ends and returns an item. -/
theorem Taker.turn_cases (r : RingBuffer α) (wanted : Nat) (t : Taker α) :
    t.turn r wanted = (r, wanted, t) ∨
      (∃ n, t.point = none ∧ wanted = n + 1 ∧
        t.turn r wanted = (r, n, { t with point := some .readTail })) ∨
      ∃ p p', t.point = some p ∧
        t.turn r wanted = ((r.stepActivity (.consuming t.id p)).1, wanted,
          { t with
            point := p'
            taken := (r.consumerMark t.id p).returned?.toList.map Prod.snd ++ t.taken }) ∧
        (r.stepActivity (.consuming t.id p)).2 = p'.map (.consuming t.id) ∧
        ((∀ o, (r.stepConsumer t.id p).2 = .ended o → ∃ a, o = .item a) →
          p'.toList.length + (r.consumerMark t.id p).returned?.toList.length = 1) := by
  obtain ⟨id, point, taken⟩ := t
  cases point with
  | none =>
      cases wanted with
      | zero => exact .inl rfl
      | succ n => exact .inr (.inl ⟨n, rfl, rfl, rfl⟩)
  | some p =>
      refine .inr (.inr ⟨p, ?_⟩)
      rw [returned?_consumerMark]
      simp only [Taker.turn, stepActivity]
      rcases r.stepConsumer id p with ⟨r', q | o⟩
      · exact ⟨some q, trivial, rfl, rfl, fun _ => rfl⟩
      · cases o with
        | item a => exact ⟨none, trivial, rfl, rfl, fun _ => rfl⟩
        | _ => exact ⟨none, trivial, rfl, rfl, fun h => by cases (h _ rfl).choose_spec⟩

namespace Crew

/-- The calls of a crew, those of the producers first. -/
def activities (c : Crew α) : List (Option (Activity α)) :=
  c.suppliers.map Supplier.activity? ++ c.takers.map Taker.activity?

/-- A crew as a machine, whose callers are the producers and then the consumers. -/
def machine (c : Crew α) : Machine α := ⟨c.ring, fun n => c.activities[n]?.join⟩

/-- The items that were taken. -/
def taken (c : Crew α) : List α := c.takers.flatMap Taker.taken

/-- The items that have yet to be stored. -/
def unstored (c : Crew α) : List α := c.suppliers.flatMap Supplier.unstored

/-- The calls of consumers. -/
def fetching (c : Crew α) : List (ConsumerPoint α) := c.takers.flatMap fun t => t.point.toList

/-- The steps that a crew has taken are those of a machine with the same ring buffer.  What they
have stored and what is still to be stored is part of the supply, and what they have returned is
what the consumers have taken. -/
structure Follows (r : RingBuffer α) (supply : List α) (demand : Nat) (marks : List (Mark α))
    (c : Crew α) : Prop where
  run : Run .turns ⟨r, fun _ => none⟩ marks c.machine
  suppliers : (c.suppliers.map Supplier.id).Nodup
  takers : (c.takers.map Taker.id).Nodup
  supplier_held : ∀ s ∈ c.suppliers, c.ring.isHeld ⟨.producer, s.id⟩ = true
  taker_held : ∀ t ∈ c.takers, c.ring.isHeld ⟨.consumer, t.id⟩ = true
  stored : (marks.filterMap Mark.stored? ++ c.unstored).Subperm supply
  returned : c.taken.Perm (returnedItems marks)
  /-- Every item is still wanted, or a consumer is after it or has it. -/
  demand : c.wanted + c.fetching.length + c.taken.length = demand

/-! ## Turns of producers -/

/-- One element of a list is replaced. -/
theorem join_getElem?_middle {β : Type} (xs ys : List (Option β)) (x x' : Option β) (n : Nat) :
    (xs ++ x' :: ys)[n]?.join = if n = xs.length then x' else (xs ++ x :: ys)[n]?.join := by
  rcases Nat.lt_trichotomy n xs.length with hlt | rfl | hlt
  · rw [if_neg (Nat.ne_of_lt hlt), List.getElem?_append_left hlt, List.getElem?_append_left hlt]
  · rw [if_pos rfl, List.getElem?_append_right (Nat.le_refl _), Nat.sub_self]
    rfl
  · obtain ⟨k, rfl⟩ := Nat.exists_eq_add_of_lt hlt
    rw [if_neg (by omega), List.getElem?_append_right (by omega),
      List.getElem?_append_right (by omega), show xs.length + k + 1 - xs.length = k + 1 by omega]
    rfl

section Suppliers

variable {c : Crew α} {before after : List (Supplier α)} {s : Supplier α}

theorem machine_supplier (heq : c.suppliers = before ++ s :: after) (r : RingBuffer α)
    (s' : Supplier α) :
    ({ c with ring := r, suppliers := before ++ s' :: after } : Crew α).machine =
      { c.machine.setCall before.length s'.activity? with ring := r } := by
  refine congrArg (Machine.mk r) (funext fun n => ?_)
  have hmiddle := join_getElem?_middle (before.map Supplier.activity?)
    (after.map Supplier.activity? ++ c.takers.map Taker.activity?) s.activity? s'.activity? n
  simpa [activities, machine, Machine.setCall, heq] using hmiddle

theorem calls_supplier (heq : c.suppliers = before ++ s :: after) :
    c.machine.calls before.length = s.activity? := by
  simp [activities, machine, heq]

/-- Between two calls of a producer nobody else uses its role. -/
theorem isFree_supplier (hnodup : (c.suppliers.map Supplier.id).Nodup) (hs : s ∈ c.suppliers)
    (hpoint : s.point = none) : c.machine.IsFree ⟨.producer, s.id⟩ := by
  intro caller a ha hrole
  have hmem : some a ∈ c.activities := List.mem_of_getElem? (Option.join_eq_some_iff.mp ha)
  rcases List.mem_append.mp hmem with hsupplier | htaker
  · obtain ⟨s', hs', hact⟩ := List.mem_map.mp hsupplier
    obtain ⟨p, hp, rfl⟩ := Option.map_eq_some_iff.mp hact
    obtain rfl := List.inj_on_of_nodup_map hnodup hs' hs (congrArg Role.id hrole)
    cases hp.symm.trans hpoint
  · obtain ⟨t, _, hact⟩ := List.mem_map.mp htaker
    obtain ⟨p, _, rfl⟩ := Option.map_eq_some_iff.mp hact
    cases congrArg Role.side hrole

variable {r₀ r : RingBuffer α} {supply : List α} {demand : Nat} {marks : List (Mark α)}

/-- A producer does something that the machine can do. -/
theorem Follows.supplier_step (h : c.Follows r₀ supply demand marks)
    (heq : c.suppliers = before ++ s :: after) {s' : Supplier α} {mark : Mark α}
    (hstep : Step .turns c.machine mark
      { c.machine.setCall before.length s'.activity? with ring := r })
    (hid : s'.id = s.id) (hheld : ∀ role, r.isHeld role = c.ring.isHeld role)
    (hstored : (mark.stored?.toList ++ s'.unstored).Subperm s.unstored)
    (hreturned : mark.returned? = none) :
    Follows r₀ supply demand (marks ++ [mark])
      { c with ring := r, suppliers := before ++ s' :: after } where
  run := by
    rw [machine_supplier heq]
    exact h.run.snoc hstep
  suppliers := by
    have hnodup := h.suppliers
    rw [heq] at hnodup
    simpa only [List.map_append, List.map_cons, hid] using hnodup
  takers := h.takers
  supplier_held := by
    have hall := h.supplier_held
    rw [heq, List.forall_mem_append, List.forall_mem_cons] at hall
    simp only [hheld]
    refine List.forall_mem_append.mpr ⟨hall.1, List.forall_mem_cons.mpr ⟨?_, hall.2.2⟩⟩
    rw [hid]
    exact hall.2.1
  taker_held t ht := (hheld _).trans (h.taker_held t ht)
  stored := by
    have hbefore := h.stored
    simp only [unstored, heq, List.flatMap_append, List.flatMap_cons] at hbefore ⊢
    rw [List.filterMap_append, List.append_assoc]
    refine .trans ?_ hbefore
    refine (List.subperm_append_left _).mpr ?_
    have hswap : (mark.stored?.toList ++ (before.flatMap Supplier.unstored ++
        (s'.unstored ++ after.flatMap Supplier.unstored))).Perm
        (before.flatMap Supplier.unstored ++ ((mark.stored?.toList ++ s'.unstored) ++
          after.flatMap Supplier.unstored)) := by
      rw [List.append_assoc]
      exact List.perm_append_comm_assoc ..
    have hlist : List.filterMap Mark.stored? [mark] = mark.stored?.toList := by
      cases mark <;> rfl
    rw [hlist]
    exact hswap.subperm.trans ((List.subperm_append_left _).mpr (hstored.append (.refl _)))
  returned := by
    rw [returnedItems_snoc, hreturned, Option.toList_none, List.map_nil, List.append_nil]
    exact h.returned
  demand := h.demand

/-- A turn of a producer is a step of the machine, or nothing. -/
theorem Follows.supplier_turn (h : c.Follows r₀ supply demand marks)
    (heq : c.suppliers = before ++ s :: after) :
    ∃ marks', Follows r₀ supply demand marks'
      { c with ring := (s.turn c.ring).1, suppliers := before ++ (s.turn c.ring).2 :: after } := by
  have hs : s ∈ c.suppliers := heq ▸ List.mem_append_right _ List.mem_cons_self
  rcases s.turn_cases c.ring with hturn | ⟨call, calls, hpoint, hcalls, hturn⟩ |
    ⟨p, p', hpoint, hturn, hact, hitem⟩
  · rw [hturn, ← heq]
    exact ⟨marks, h⟩
  · rw [hturn]
    have hcall : c.machine.calls before.length = none := by
      rw [calls_supplier heq, Supplier.activity?, hpoint]
      rfl
    have hfree := isFree_supplier h.suppliers hs hpoint
    have hitems : s.unstored = call.start.item?.toList ++ calls.filterMap ProducerCall.item? := by
      rw [Supplier.unstored, hpoint, hcalls, ProducerCall.item?_start]
      cases hitem : call.item? <;> simp [hitem]
    have hmay : MayStart .turns c.machine before.length ⟨.producer, s.id⟩ :=
      ⟨hcall, h.supplier_held s hs, fun _ => hfree⟩
    refine ⟨_, h.supplier_step heq (.produce call hmay) rfl (fun _ => rfl) ?_ rfl⟩
    rw [hitems]
    exact .refl _
  · rw [hturn]
    have hcall : c.machine.calls before.length = some (.producing s.id p) := by
      rw [calls_supplier heq, Supplier.activity?, hpoint]
      rfl
    have hstep : Step .turns c.machine _ _ := .advance hcall
    rw [show c.machine.ring = c.ring from rfl, hact] at hstep
    refine ⟨_, h.supplier_step heq hstep rfl (isHeld_stepActivity _) ?_ ?_⟩
    · rw [Supplier.unstored, Supplier.unstored, hpoint, hitem, ← List.append_assoc]
      exact (item?_stepProducer c.ring s.id p).subperm.append (.refl _)
    · cases p <;> rfl

end Suppliers

/-! ## Turns of consumers -/

section Takers

variable {c : Crew α} {before after : List (Taker α)} {t : Taker α}

theorem machine_taker (heq : c.takers = before ++ t :: after) (r : RingBuffer α) (wanted : Nat)
    (t' : Taker α) :
    ({ c with ring := r, wanted := wanted, takers := before ++ t' :: after } : Crew α).machine =
      { c.machine.setCall (c.suppliers.length + before.length) t'.activity? with ring := r } := by
  refine congrArg (Machine.mk r) (funext fun n => ?_)
  have hmiddle := join_getElem?_middle
    (c.suppliers.map Supplier.activity? ++ before.map Taker.activity?)
    (after.map Taker.activity?) t.activity? t'.activity? n
  simpa [activities, machine, Machine.setCall, heq] using hmiddle

theorem calls_taker (heq : c.takers = before ++ t :: after) :
    c.machine.calls (c.suppliers.length + before.length) = t.activity? := by
  simp [activities, machine, heq]

/-- Between two calls of a consumer nobody else uses its role. -/
theorem isFree_taker (hnodup : (c.takers.map Taker.id).Nodup) (ht : t ∈ c.takers)
    (hpoint : t.point = none) : c.machine.IsFree ⟨.consumer, t.id⟩ := by
  intro caller a ha hrole
  have hmem : some a ∈ c.activities := List.mem_of_getElem? (Option.join_eq_some_iff.mp ha)
  rcases List.mem_append.mp hmem with hsupplier | htaker
  · obtain ⟨s, _, hact⟩ := List.mem_map.mp hsupplier
    obtain ⟨p, _, rfl⟩ := Option.map_eq_some_iff.mp hact
    cases congrArg Role.side hrole
  · obtain ⟨t', ht', hact⟩ := List.mem_map.mp htaker
    obtain ⟨p, hp, rfl⟩ := Option.map_eq_some_iff.mp hact
    obtain rfl := List.inj_on_of_nodup_map hnodup ht' ht (congrArg Role.id hrole)
    cases hp.symm.trans hpoint

variable {r₀ r : RingBuffer α} {supply : List α} {demand : Nat} {marks : List (Mark α)}

/-- A consumer does something that the machine can do. -/
theorem Follows.taker_step (h : c.Follows r₀ supply demand marks)
    (heq : c.takers = before ++ t :: after) {t' : Taker α} {mark : Mark α} {wanted : Nat}
    (hstep : Step .turns c.machine mark
      { c.machine.setCall (c.suppliers.length + before.length) t'.activity? with ring := r })
    (hid : t'.id = t.id) (hheld : ∀ role, r.isHeld role = c.ring.isHeld role)
    (hstored : mark.stored? = none)
    (htaken : t'.taken = mark.returned?.toList.map Prod.snd ++ t.taken)
    (hwanted : wanted + t'.point.toList.length + mark.returned?.toList.length =
      c.wanted + t.point.toList.length) :
    Follows r₀ supply demand (marks ++ [mark])
      { c with ring := r, wanted := wanted, takers := before ++ t' :: after } where
  run := by
    rw [machine_taker heq]
    exact h.run.snoc hstep
  suppliers := h.suppliers
  takers := by
    have hnodup := h.takers
    rw [heq] at hnodup
    simpa only [List.map_append, List.map_cons, hid] using hnodup
  supplier_held s hs := (hheld _).trans (h.supplier_held s hs)
  taker_held := by
    have hall := h.taker_held
    rw [heq, List.forall_mem_append, List.forall_mem_cons] at hall
    simp only [hheld]
    refine List.forall_mem_append.mpr ⟨hall.1, List.forall_mem_cons.mpr ⟨?_, hall.2.2⟩⟩
    rw [hid]
    exact hall.2.1
  stored := by
    have hlist : List.filterMap Mark.stored? [mark] = [] := List.filterMap_cons_none hstored
    rw [List.filterMap_append, hlist, List.append_nil]
    exact h.stored
  returned := by
    have hbefore := h.returned
    simp only [taken, heq, List.flatMap_append, List.flatMap_cons] at hbefore ⊢
    rw [returnedItems_snoc, htaken, List.append_assoc]
    refine (List.perm_append_comm_assoc ..).trans (List.perm_append_comm.trans ?_)
    exact hbefore.append_right _
  demand := by
    have hbefore := h.demand
    simp only [fetching, taken, heq, htaken, List.flatMap_append, List.flatMap_cons,
      List.length_append, List.length_map] at hbefore ⊢
    omega

/-- A turn of a consumer is a step of the machine, or nothing. -/
theorem Follows.taker_turn {capacity producers consumers : Nat}
    (hnew : RingBuffer.new capacity producers consumers = .ok r₀)
    (h : c.Follows r₀ supply demand marks) (heq : c.takers = before ++ t :: after) :
    ∃ marks', Follows r₀ supply demand marks'
      { c with
        ring := (t.turn c.ring c.wanted).1
        wanted := (t.turn c.ring c.wanted).2.1
        takers := before ++ (t.turn c.ring c.wanted).2.2 :: after } := by
  have ht : t ∈ c.takers := heq ▸ List.mem_append_right _ List.mem_cons_self
  rcases t.turn_cases c.ring c.wanted with hturn | ⟨n, hpoint, hwanted, hturn⟩ |
    ⟨p, p', hpoint, hturn, hact, hone⟩
  · rw [hturn, ← heq]
    exact ⟨marks, h⟩
  · rw [hturn]
    have hcall : c.machine.calls (c.suppliers.length + before.length) = none := by
      rw [calls_taker heq, Taker.activity?, hpoint]
      rfl
    have hfree := isFree_taker h.takers ht hpoint
    have hmay : MayStart .turns c.machine (c.suppliers.length + before.length)
        ⟨.consumer, t.id⟩ := ⟨hcall, h.taker_held t ht, fun _ => hfree⟩
    refine ⟨_, h.taker_step heq (.consume hmay) rfl (fun _ => rfl) rfl rfl ?_⟩
    rw [hpoint, hwanted]
    rfl
  · rw [hturn]
    have hcall : c.machine.calls (c.suppliers.length + before.length) =
        some (.consuming t.id p) := by
      rw [calls_taker heq, Taker.activity?, hpoint]
      rfl
    have hstep : Step .turns c.machine _ _ := .advance hcall
    rw [show c.machine.ring = c.ring from rfl, hact] at hstep
    have hfits := ((Machine.run_fits hnew h.run).1.calls hcall).2
    refine ⟨_, h.taker_step heq hstep rfl (isHeld_stepActivity _) ?_ rfl ?_⟩
    · cases p <;> rfl
    · have hends := hone fun o ho => hfits.ends ho
      rw [hpoint]
      exact (Nat.add_assoc ..).trans (congrArg (c.wanted + ·) hends)

end Takers

/-! ## Turns of a crew -/

section Turns

variable {r₀ : RingBuffer α} {supply : List α} {demand : Nat} {marks : List (Mark α)}

/-- A turn of some producers is some steps of the machine. -/
theorem Follows.after_supplierTurns {c : Crew α} (h : c.Follows r₀ supply demand marks)
    (before : List (Supplier α)) {rest : List (Supplier α)} (heq : c.suppliers = before ++ rest) :
    ∃ marks', Follows r₀ supply demand marks'
      { c with
        ring := (supplierTurns c.ring rest).1
        suppliers := before ++ (supplierTurns c.ring rest).2 } := by
  induction rest generalizing c before marks with
  | nil =>
      refine ⟨marks, ?_⟩
      rw [supplierTurns, ← heq]
      exact h
  | cons s rest ih =>
      obtain ⟨_, hturn⟩ := h.supplier_turn heq
      obtain ⟨marks', hrest⟩ := ih hturn _ (List.append_cons ..)
      refine ⟨marks', ?_⟩
      rw [← List.append_cons] at hrest
      exact hrest

/-- A turn of some consumers is some steps of the machine. -/
theorem Follows.after_takerTurns {capacity producers consumers : Nat}
    (hnew : RingBuffer.new capacity producers consumers = .ok r₀) {c : Crew α}
    (h : c.Follows r₀ supply demand marks) (before : List (Taker α)) {rest : List (Taker α)}
    (heq : c.takers = before ++ rest) :
    ∃ marks', Follows r₀ supply demand marks'
      { c with
        ring := (takerTurns c.ring c.wanted rest).1
        wanted := (takerTurns c.ring c.wanted rest).2.1
        takers := before ++ (takerTurns c.ring c.wanted rest).2.2 } := by
  induction rest generalizing c before marks with
  | nil =>
      refine ⟨marks, ?_⟩
      rw [takerTurns, ← heq]
      exact h
  | cons t rest ih =>
      obtain ⟨_, hturn⟩ := h.taker_turn hnew heq
      obtain ⟨marks', hrest⟩ := ih hturn _ (List.append_cons ..)
      refine ⟨marks', ?_⟩
      rw [← List.append_cons] at hrest
      exact hrest

variable {capacity producers consumers : Nat} {c : Crew α}

theorem Follows.turn (hnew : RingBuffer.new capacity producers consumers = .ok r₀)
    (h : c.Follows r₀ supply demand marks) :
    ∃ marks', c.turn.Follows r₀ supply demand marks' := by
  obtain ⟨_, hsuppliers⟩ := h.after_supplierTurns [] rfl
  exact hsuppliers.after_takerTurns hnew [] rfl

/-- However many turns a crew takes, they are the steps of a machine. -/
theorem Follows.run_turns (hnew : RingBuffer.new capacity producers consumers = .ok r₀)
    (h : c.Follows r₀ supply demand marks) (turns : Nat) :
    ∃ marks', (Crew.run turns c).Follows r₀ supply demand marks' := by
  induction turns generalizing c marks with
  | zero => exact ⟨marks, h⟩
  | succ turns ih =>
      rw [Crew.run]
      split
      · exact ⟨marks, h⟩
      · obtain ⟨_, hturn⟩ := h.turn hnew
        exact ih hturn

end Turns

end Crew

/-! ## Calls for some items -/

theorem filterMap_fillsDown (n : Nat) (items : List α) :
    (fillsDown n items).filterMap ProducerCall.item? = items.reverse := by
  induction items generalizing n with
  | nil => rfl
  | cons item items ih =>
      rw [fillsDown, List.filterMap_append, ih, List.reverse_cons]
      rfl

theorem filterMap_groupCalls (items : List α) :
    (groupCalls items).filterMap ProducerCall.item? = items.reverse := by
  rw [groupCalls, List.filterMap_cons_none rfl, List.filterMap_append, filterMap_fillsDown]
  exact List.append_nil _

theorem subperm_groupedCalls (group fuel : Nat) (items : List α) :
    ((groupedCalls group fuel items).filterMap ProducerCall.item?).Subperm items := by
  induction fuel generalizing items with
  | zero => exact List.nil_subperm
  | succ fuel ih =>
      cases items with
      | nil => exact List.nil_subperm
      | cons item items =>
          simp only [groupedCalls, List.filterMap_append, filterMap_groupCalls]
          have hparts := (List.reverse_perm ((item :: items).take group)).subperm.append
            (ih ((item :: items).drop group))
          rwa [List.take_append_drop] at hparts

/-- The calls for some items store these. -/
theorem subperm_callsFor (group : Nat) (items : List α) :
    ((callsFor group items).filterMap ProducerCall.item?).Subperm items := by
  rw [callsFor]
  split
  · rw [List.filterMap_map]
    exact (List.Perm.of_eq (List.filterMap_some ..)).subperm
  · exact subperm_groupedCalls ..

/-! ## The shares of the producers -/

namespace Crew

/-- The items of all producers. -/
def supply (count each : Nat) : List Nat := (List.range count).flatMap (share count each)

theorem mem_share {count each id a : Nat} :
    a ∈ share count each id ↔ ∃ n < each, a = n * count + id := by
  simp [share, eq_comm]

theorem mem_supply {count each a : Nat} : a ∈ supply count each ↔ a < count * each := by
  rw [supply, List.mem_flatMap]
  constructor
  · rintro ⟨id, hid, ha⟩
    obtain ⟨n, hn, rfl⟩ := mem_share.mp ha
    have hid := List.mem_range.mp hid
    have hle := Nat.mul_le_mul_right count hn
    rw [Nat.succ_mul] at hle
    rw [Nat.mul_comm count each]
    omega
  · intro ha
    have hpos : 0 < count := Nat.pos_of_mul_pos_right (Nat.zero_lt_of_lt ha)
    refine ⟨a % count, List.mem_range.mpr (Nat.mod_lt a hpos),
      mem_share.mpr ⟨a / count, ?_, ?_⟩⟩
    · exact Nat.div_lt_of_lt_mul ha
    · exact (Nat.div_add_mod' a count).symm

/-- No item is in two shares, or twice in one. -/
theorem nodup_supply (count each : Nat) : (supply count each).Nodup := by
  refine List.nodup_flatMap.mpr ⟨fun id hid => ?_, ?_⟩
  · have hpos := Nat.zero_lt_of_lt (List.mem_range.mp hid)
    refine List.Nodup.map (fun n n' heq => ?_) List.nodup_range
    exact Nat.eq_of_mul_eq_mul_right hpos (Nat.add_right_cancel heq)
  · refine List.nodup_range.imp_of_mem fun {id id'} hid hid' hne a ha ha' => hne ?_
    obtain ⟨n, _, rfl⟩ := mem_share.mp ha
    obtain ⟨n', _, heq⟩ := mem_share.mp ha'
    have hmod := congrArg (· % count) heq
    simpa [Nat.mod_eq_of_lt (List.mem_range.mp hid), Nat.mod_eq_of_lt (List.mem_range.mp hid')]
      using hmod

end Crew

/-! ## The start -/

theorem subperm_flatMap {β : Type} {l : List α} {f g : α → List β}
    (h : ∀ x ∈ l, (f x).Subperm (g x)) : (l.flatMap f).Subperm (l.flatMap g) := by
  induction l with
  | nil => exact .refl _
  | cons x l ih =>
      rw [List.flatMap_cons, List.flatMap_cons]
      exact (h x List.mem_cons_self).append (ih fun y hy => h y (List.mem_cons_of_mem _ hy))

theorem roles_take {r r' : RingBuffer α} {role : Role} (h : r.take role = .ok r') :
    r'.roles = r.roles := by
  obtain ⟨side, id⟩ := role
  cases side with
  | producer =>
      simp only [take, takeProducer] at h
      split at h
      · cases h
      · split at h <;> cases h
        simp [roles, setProducer]
  | consumer =>
      simp only [take, takeConsumer] at h
      split at h
      · cases h
      · split at h <;> cases h
        simp [roles, setConsumer]

/-- A role that cannot be taken is held. -/
theorem isHeld_of_not_taken {r : RingBuffer α} {role : Role} (hmem : role ∈ r.roles) {e : Misuse}
    (h : r.take role = .error e) : r.isHeld role = true := by
  obtain ⟨side, id⟩ := role
  cases side with
  | producer =>
      refine (takeProducer_fails_iff.mp ⟨e, h⟩).resolve_left (Nat.not_le.mpr ?_)
      simpa [roles] using hmem
  | consumer =>
      refine (takeConsumer_fails_iff.mp ⟨e, h⟩).resolve_left (Nat.not_le.mpr ?_)
      simpa [roles] using hmem

/-- Who takes each of some roles holds them all. -/
theorem isHeld_takeEach {r : RingBuffer α} {rest : List Role} {role : Role}
    (hmem : role ∈ r.roles) (h : role ∈ rest ∨ r.isHeld role = true) :
    (r.takeEach rest).isHeld role = true := by
  induction rest generalizing r with
  | nil => exact h.resolve_left List.not_mem_nil
  | cons other rest ih =>
      rw [takeEach]
      cases htake : r.take other with
      | ok r' =>
          refine ih (roles_take htake ▸ hmem) ?_
          rw [isHeld_take htake]
          split
          · exact .inr rfl
          · rename_i hne
            exact h.imp_left fun hin => (List.mem_cons.mp hin).resolve_left hne
      | error e =>
          refine ih hmem ?_
          rcases h with hin | hheld
          · rcases List.mem_cons.mp hin with rfl | hin
            · exact .inr (isHeld_of_not_taken hmem htake)
            · exact .inl hin
          · exact .inr hheld

/-- To take roles is something that a machine can do, and leaves no mark. -/
theorem run_takeEach {sharing : Sharing} {start : Machine α} {marks : List (Mark α)}
    {r : RingBuffer α} {calls : Nat → Option (Activity α)} (rest : List Role)
    (h : Run sharing start marks ⟨r, calls⟩) :
    ∃ n, Run sharing start (marks ++ List.replicate n .silent) ⟨r.takeEach rest, calls⟩ := by
  induction rest generalizing r marks with
  | nil => exact ⟨0, by rwa [List.replicate_zero, List.append_nil]⟩
  | cons role rest ih =>
      rw [takeEach]
      cases htake : r.take role with
      | error e => exact ih h
      | ok r' =>
          have hstep : Step sharing ⟨r, calls⟩ .silent ⟨r', calls⟩ := by
            obtain ⟨side, id⟩ := role
            cases side with
            | producer => exact .takeProducer htake
            | consumer => exact .takeConsumer htake
          obtain ⟨n, hrun⟩ := ih (h.snoc hstep)
          exact ⟨n + 1, by rwa [← List.append_cons] at hrun⟩

namespace Crew

variable {capacity producers consumers : Nat} {r : RingBuffer Nat}

/-- A crew that has been assembled holds its roles and has everything ahead of it. -/
theorem follows_assemble (hnew : RingBuffer.new capacity producers consumers = .ok r)
    (group each : Nat) :
    ∃ marks, (assemble r group each).Follows r (supply producers each) (producers * each)
      marks := by
  have hbegin : Run .turns ⟨r, fun _ => none⟩ [] ⟨r, fun _ => none⟩ := .none
  obtain ⟨n, hrun⟩ := run_takeEach r.roles hbegin
  obtain rfl : r.producers.size = producers := by simp [(eq_empty_of_new hnew).1, empty]
  have hsupplier : ∀ s ∈ (assemble r group each).suppliers,
      s.activity? = none ∧ ⟨.producer, s.id⟩ ∈ r.roles := by
    intro s hs
    obtain ⟨id, hid, rfl⟩ := List.mem_map.mp hs
    exact ⟨rfl, List.mem_append_left _ (List.mem_map_of_mem hid)⟩
  have htaker : ∀ t ∈ (assemble r group each).takers,
      t.activity? = none ∧ t.point = none ∧ t.taken = [] ∧
        ⟨.consumer, t.id⟩ ∈ r.roles := by
    intro t ht
    obtain ⟨id, hid, rfl⟩ := List.mem_map.mp ht
    exact ⟨rfl, rfl, rfl, List.mem_append_right _ (List.mem_map_of_mem hid)⟩
  have htaken : (assemble r group each).taken = [] :=
    List.flatMap_eq_nil_iff.mpr fun t ht => (htaker t ht).2.2.1
  have hfetching : (assemble r group each).fetching = [] :=
    List.flatMap_eq_nil_iff.mpr fun t ht => by rw [(htaker t ht).2.1]; rfl
  have hidle : ∀ x ∈ (assemble r group each).activities, x = none := by
    intro x hx
    rcases List.mem_append.mp hx with hmem | hmem
    · obtain ⟨s, hs, rfl⟩ := List.mem_map.mp hmem
      exact (hsupplier s hs).1
    · obtain ⟨t, ht, rfl⟩ := List.mem_map.mp hmem
      exact (htaker t ht).1
  have hmachine : (assemble r group each).machine = ⟨r.takeEach r.roles, fun _ => none⟩ := by
    refine congrArg (Machine.mk _) (funext fun k => ?_)
    cases hk : (assemble r group each).activities[k]? with
    | none => rfl
    | some x => exact hidle x (List.mem_of_getElem? hk)
  have hquiet : (List.replicate n (Mark.silent : Mark Nat)).filterMap Mark.stored? = [] := by
    simp [List.filterMap_replicate, Mark.stored?]
  exact ⟨List.replicate n .silent,
    { run := by
        rw [hmachine]
        exact hrun
      suppliers := by simp [assemble, Function.comp_def, List.nodup_range]
      takers := by simp [assemble, Function.comp_def, List.nodup_range]
      supplier_held := fun s hs => isHeld_takeEach (hsupplier s hs).2 (.inl (hsupplier s hs).2)
      taker_held := fun t ht => isHeld_takeEach (htaker t ht).2.2.2 (.inl (htaker t ht).2.2.2)
      stored := by
        rw [hquiet, List.nil_append, unstored, supply]
        simp only [assemble, List.flatMap_map]
        exact subperm_flatMap fun id _ => subperm_callsFor group (share _ each id)
      returned := by
        rw [htaken, returnedItems, List.filterMap_replicate]
        exact .refl _
      demand := by
        rw [htaken, hfetching]
        rfl }⟩

variable {each demand : Nat} {c : Crew Nat} {marks : List (Mark Nat)}

theorem items_perm (c : Crew Nat) : c.items.Perm c.taken := List.mergeSort_perm ..

/-- What was taken was stored once. -/
theorem Follows.items_nodup (hnew : RingBuffer.new capacity producers consumers = .ok r)
    (h : c.Follows r (supply producers each) demand marks) : c.items.Nodup := by
  obtain ⟨stored, hperm, hsub⟩ := h.stored
  have hnodup := hperm.nodup_iff.mp (hsub.nodup (nodup_supply producers each))
  have hlawful := (Machine.run_fits hnew h.run).2.1
  rw [(c.items_perm.trans h.returned).nodup_iff]
  exact hlawful.nodup_returnedItems hnodup.of_append_left

/-- What was taken comes from the producers. -/
theorem Follows.items_lt (hnew : RingBuffer.new capacity producers consumers = .ok r)
    (h : c.Follows r (supply producers each) demand marks) {a : Nat} (ha : a ∈ c.items) :
    a < producers * each := by
  have hlawful := (Machine.run_fits hnew h.run).2.1
  obtain ⟨id, position, hmem, -⟩ :=
    hlawful.exists_stored ((c.items_perm.trans h.returned).mem_iff.mp ha)
  exact mem_supply.mp (h.stored.subset
    (List.mem_append_left _ (List.mem_filterMap.mpr ⟨_, hmem, rfl⟩)))

/-- When nobody has anything left to do, as many items were taken as were wanted. -/
theorem Follows.length_items (h : c.Follows r (supply producers each) demand marks)
    (hdone : c.isDone = true) : c.items.length = demand := by
  simp only [isDone, Bool.and_eq_true, beq_iff_eq, List.all_eq_true,
    Option.isNone_iff_eq_none] at hdone
  have hfetching : c.fetching = [] := by
    refine List.flatMap_eq_nil_iff.mpr fun t ht => ?_
    rw [hdone.2 t ht]
    rfl
  have hdemand := h.demand
  rw [hdone.1.1, hfetching] at hdemand
  rw [c.items_perm.length_eq]
  simpa using hdemand

/-- Whatever a crew was given to do and however many turns it has taken, nobody has taken an item
twice, or one that no producer had. -/
theorem run_items_nodup (hnew : RingBuffer.new capacity producers consumers = .ok r)
    (group each turns : Nat) :
    ((assemble r group each).run turns).items.Nodup ∧
      ∀ a ∈ ((assemble r group each).run turns).items, a < producers * each := by
  obtain ⟨_, hstart⟩ := follows_assemble hnew group each
  obtain ⟨_, h⟩ := hstart.run_turns hnew turns
  exact ⟨h.items_nodup hnew, fun a ha => h.items_lt hnew ha⟩

/-- When nobody has anything left to do, every item was taken, and once. -/
theorem run_items_of_isDone (hnew : RingBuffer.new capacity producers consumers = .ok r)
    (group each turns : Nat) (hdone : ((assemble r group each).run turns).isDone = true) :
    ((assemble r group each).run turns).items = List.range (producers * each) := by
  obtain ⟨_, hstart⟩ := follows_assemble hnew group each
  obtain ⟨_, h⟩ := hstart.run_turns hnew turns
  have hsub := (h.items_nodup hnew).subperm fun a ha => List.mem_range.mpr (h.items_lt hnew ha)
  have hlength : (List.range (producers * each)).length ≤ _ :=
    Nat.le_of_eq (List.length_range.trans (h.length_items hdone).symm)
  exact (hsub.perm_of_length_le hlength).eq_of_pairwise' (List.pairwise_mergeSort' (· ≤ ·) _)
    List.pairwise_le_range

/-- Two producers hand over three items each, two at a time, and one consumer takes them. -/
example : (work (empty 2 2 1) 2 3).isDone = true := by decide +kernel

end Crew

end Lineage.RingBuffer

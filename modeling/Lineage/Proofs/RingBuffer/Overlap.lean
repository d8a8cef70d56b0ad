import Lineage.Proofs.RingBuffer.Opening
import Lineage.Proofs.RingBuffer.Orderly

/-!
# Producers that are shared

A role of a ring buffer has one cursor, and whoever reads the cursors takes it for the lowest
position that the role works on.  That is right as long as one call at a time uses the role.  Here
some producers are *shared*: a push may begin while another one of the same producer is under way
(`Machine.SharedStep`).

Then the second push puts its own position in the cursor while the first has not written yet.  A
consumer that reads the cursor in between takes the position of the first push for published, and
finds its slot empty (`Machine.exists_empty_pop`).  Two pushes are enough for that, whatever the
shape of the ring buffer.  So a ring buffer keeps its promises exactly if no producer is shared
(`Machine.delivers_iff_unshared`).
-/

namespace Lineage.RingBuffer

variable {α : Type}

namespace Machine

/-- One step of a machine in which pushes of some producers may overlap. -/
inductive SharedStep (shared : Nat → Prop) : Machine α → Mark α → Machine α → Prop where
  /-- A step by the rules. -/
  | turn {m m' : Machine α} {mark : Mark α} : Step .turns m mark m' →
    SharedStep shared m mark m'
  /-- A push of a shared producer begins, whatever else the producer is doing. -/
  | push {m : Machine α} {caller id : Nat} (item : α) :
      shared id → m.calls caller = none → m.ring.isHeld ⟨.producer, id⟩ = true →
      SharedStep shared m .silent (m.setCall caller (some (.producing id (.check (.push item)))))

/-- A run in which pushes of some producers may overlap. -/
inductive SharedRun (shared : Nat → Prop) : Machine α → List (Mark α) →
  Machine α → Prop where
  /-- No step. -/
  | none {m : Machine α} : SharedRun shared m [] m
  /-- A run and one more step. -/
  | snoc {m m' m'' : Machine α} {marks : List (Mark α)} {mark : Mark α} :
      SharedRun shared m marks m' → SharedStep shared m' mark m'' →
        SharedRun shared m (marks ++ [mark]) m''

/-- The marks of a run are lawful, and a pop that ends brings an item. -/
def Delivers (capacity : Nat) (marks : List (Mark α)) (m : Machine α) : Prop :=
  Lawful capacity marks ∧
    ∀ {caller id p o}, m.calls caller = some (.consuming id p) →
      (m.ring.stepConsumer id p).2 = .ended o →
      ∃ a, o = .item a

variable {shared : Nat → Prop} {start m m' : Machine α} {marks marks' : List (Mark α)}
  {capacity producers consumers : Nat} {r : RingBuffer α}

/-- A run with shared producers goes on by the rules. -/
theorem SharedRun.append (h : SharedRun shared start marks m) (hrun : Run .turns m marks' m') :
    SharedRun shared start (marks ++ marks') m' := by
  induction hrun with
  | none => rwa [List.append_nil]
  | snoc _ hstep ih =>
      rw [← List.append_assoc]
      exact ih.snoc (.turn hstep)

/-- If no producer is shared, a run is one by the rules. -/
theorem SharedRun.run (hnew : RingBuffer.new capacity producers consumers = .ok r)
    (hunshared : ∀ id, id < producers → ¬ shared id)
    (h : SharedRun shared ⟨r, fun _ => .none⟩ marks m) :
    Run .turns ⟨r, fun _ => .none⟩ marks m := by
  induction h with
  | none => exact .none
  | snoc _ hstep ih =>
      cases hstep with
      | turn hstep => exact ih.snoc hstep
      | @push caller id item hshared _ hheld =>
          have hid := lt_of_isHeld_producer hheld
          rw [(run_sizes hnew ih).1] at hid
          exact absurd hshared (hunshared id hid)

/-! ## Two pushes at once -/

/-- Two pushes of one producer are under way, and the second one has put its position in the
cursor. -/
def overlapping (r : RingBuffer α) (id : Nat) (a b : α) : Machine α :=
  (Machine.setCall ⟨r, fun _ => .none⟩ 0 (some (.producing id (.compare (.push a) 0)))).setCall
    1 (some (.producing id (.compare (.push b) 1)))

/-- A ring buffer in which the next position to take looks published, and is not. -/
structure Deceived (r : RingBuffer α) : Prop where
  tail : r.tail = 0
  firstHead : r.firstHead = 0
  floor : 0 < r.claimFloor
  slot : r.slot 0 = none
  held : (r.consumer 0).held = true

/-- A shared producer lets two pushes overlap, and then the cursor is too high for the first one. -/
theorem exists_overlapping (hnew : RingBuffer.new capacity producers consumers = .ok r) {id : Nat}
    (hlt : id < producers) (hshared : shared id) (a b : α) :
    ∃ (marks : List (Mark α)) (r' : RingBuffer α),
      SharedRun shared ⟨r, fun _ => .none⟩ marks (overlapping r' id a b) ∧ Deceived r' := by
  obtain ⟨-, -, hconsumers⟩ := sizes_pos_of_new hnew
  obtain ⟨_, r₀, hstaff, hs⟩ := @exists_staffed _ .turns _ _ _ _ hnew
  have hid : id < r₀.producers.size := hs.producers ▸ hlt
  have hhead : (Machine.mk r₀ fun _ => .none).ring.head = 0 := hs.head
  -- The first push claims position 0, and has not written yet.
  have hcheck : r₀.checkClaim id (.push a) = .ok () := by simp [checkClaim, (hs.ready id hid).2]
  obtain ⟨_, hfirst⟩ :=
    run_claim 0 id hstaff ⟨rfl, (hs.ready id hid).1, fun _ => isFree_of_no_call _ _⟩ hcheck
  rw [hhead] at hfirst
  obtain ⟨r₁, hr₁⟩ : ∃ r₁, r₁ = r₀.afterClaim id (.push a) := ⟨_, rfl⟩
  rw [← hr₁] at hfirst
  have hid₁ : id < r₁.producers.size := by simpa [hr₁] using hid
  have hhead₁ : r₁.head = 1 := by simp [hr₁, hs.head, Claim.size]
  have hready : Ready r₁ := hr₁ ▸ hs.ready.afterClaim hid (.push a)
  have hcursor : ∀ j, j ≠ id → (r₁.producer j).cursor = atRest := by
    intro j hj
    rw [hr₁, producer_afterClaim hid, if_neg hj, hs.producer j]
  -- The second push claims position 1.
  have hcheck₁ : r₁.checkClaim id (.push b) = .ok () := by
    simp [checkClaim, (hready id hid₁).2]
  have hbegun := (SharedRun.none.append hfirst).snoc
    (@SharedStep.push _ _ _ 1 id b hshared rfl (hready id hid₁).1)
  obtain ⟨_, hsecond⟩ := @run_checked α .turns _ (Machine.setCall ⟨r₁, fun _ => .none⟩ 0
    (some (.producing id (.compare (.push a) 0)))) _ 1 id (.push b) .none hcheck₁
  rw [ring_setCall, hhead₁] at hsecond
  refine ⟨_, r₁.afterClaim id (.push b), hbegun.append hsecond, ?_⟩
  constructor
  · simp [hr₁, hs.tail]
  · simp [hr₁, hs.firstHead]
  · refine le_claimFloor_iff.mpr ⟨Nat.succ_pos _, fun j _ => ?_⟩
    rw [producer_afterClaim hid₁]
    by_cases hj : j = id
    · rw [if_pos hj, hhead₁]
    · rw [if_neg hj, hcursor j hj]
      exact atRest_pos
  · simp [hr₁, hs.slot]
  · simp [hr₁, hs.consumer, hconsumers]

/-- A pop takes what is in the slot of its position if that looks published. -/
theorem run_take (caller id : Nat) {sharing : Sharing} (hrun : Run sharing start marks m)
    (hmay : MayStart sharing m caller ⟨.consumer, id⟩)
    (hkept : m.ring.firstHead ≤ m.ring.tail) (hfloor : m.ring.tail < m.ring.claimFloor) :
    ∃ marks' m', Run sharing start marks' m' ∧ m'.calls =
      (m.setCall caller
        (some (.consuming id (.rest m.ring.tail (m.ring.slot m.ring.tail))))).calls := by
  obtain ⟨_, hwant⟩ := run_want caller id hrun hmay
  obtain ⟨_, hlacking⟩ := run_lacking hwant hkept
  obtain ⟨_, hpass⟩ := run_pass_consumer hlacking
  have hgo : ¬ (m.ring.afterWant id).claimFloor ≤ m.ring.tail := Nat.not_le.mpr hfloor
  rw [if_neg hgo] at hpass
  exact ⟨_, _, hpass.advance rfl, rfl⟩

/-- Runs by the rules deliver. -/
theorem delivers_of_turns (hnew : RingBuffer.new capacity producers consumers = .ok r)
    (hrun : Run .turns ⟨r, fun _ => .none⟩ marks m) : Delivers capacity marks m := by
  obtain ⟨hfits, hlawful, -⟩ := run_fits hnew hrun
  exact ⟨hlawful, fun hcall hended => (hfits.calls hcall).2.ends hended⟩

/-- A shared producer lets a pop find an empty slot. -/
theorem exists_empty_pop (hnew : RingBuffer.new capacity producers consumers = .ok r) {id : Nat}
    (hlt : id < producers) (hshared : shared id) (a b : α) :
    ∃ (marks : List (Mark α)) (m : Machine α),
      SharedRun shared ⟨r, fun _ => .none⟩ marks m ∧
      m.calls 0 = some (.producing id (.compare (.push a) 0)) ∧
        m.calls 1 = some (.producing id (.compare (.push b) 1)) ∧
          m.calls 2 = some (.consuming 0 (.rest 0 none)) := by
  obtain ⟨_, r', hrun, hdeceived⟩ := exists_overlapping hnew hlt hshared a b
  have hfree : (overlapping r' id a b).IsFree ⟨.consumer, 0⟩ :=
    ((isFree_of_no_call _ _).setCall_some (by simp [Activity.role])).setCall_some
      (by simp [Activity.role])
  obtain ⟨_, m, htake, hcalls⟩ := @run_take _ _ (overlapping r' id a b) _ 2 0 .turns .none
    ⟨rfl, hdeceived.held, fun _ => hfree⟩
    (hdeceived.firstHead.trans_le (Nat.zero_le _)) (hdeceived.tail.trans_lt hdeceived.floor)
  refine ⟨_, m, hrun.append htake, ?_, ?_, ?_⟩
  · rw [hcalls]
    rfl
  · rw [hcalls]
    rfl
  · have hslot : r'.slot r'.tail = none := hdeceived.tail ▸ hdeceived.slot
    rw [hcalls, calls_setCall_self]
    exact congrArg some (by rw [show (overlapping r' id a b).ring = r' from rfl,
      hslot, hdeceived.tail])

/-- A ring buffer delivers in every run exactly if none of its producers is shared.  A shared one
lets a pop find an empty slot, whatever the numbers of slots and roles, and though all other roles
are used by the rules. -/
theorem delivers_iff_unshared [Nonempty α]
    (hnew : RingBuffer.new capacity producers consumers = .ok r) (shared : Nat → Prop) :
    (∀ (marks : List (Mark α)) (m : Machine α),
      SharedRun shared ⟨r, fun _ => .none⟩ marks m →
      Delivers capacity marks m) ↔ ∀ id, id < producers → ¬ shared id := by
  constructor
  · intro hall id hlt hshared
    obtain ⟨item⟩ := ‹Nonempty α›
    obtain ⟨marks, m, hrun, -, -, hpop⟩ := exists_empty_pop hnew hlt hshared item item
    obtain ⟨a, ha⟩ := (hall marks m hrun).2 hpop rfl
    cases ha
  · exact fun hunshared marks m hrun => delivers_of_turns hnew (hrun.run hnew hunshared)

/-- In a ring buffer with two slots, pushes are safe if the producer is not shared, and not if it
is. -/
theorem delivers_iff_unshared_two :
    (∀ (marks : List (Mark Nat)) (m : Machine Nat),
      SharedRun (fun _ => False) ⟨empty 2 1 1, fun _ => .none⟩ marks m →
        Delivers 2 marks m) ∧
    ¬ ∀ (marks : List (Mark Nat)) (m : Machine Nat),
      SharedRun (fun id => id = 0) ⟨empty 2 1 1, fun _ => .none⟩ marks m →
        Delivers 2 marks m := by
  have hnew : RingBuffer.new 2 1 1 = .ok (empty 2 1 1 : RingBuffer Nat) := rfl
  exact ⟨(delivers_iff_unshared hnew _).mpr fun _ _ h => h,
    fun hall => (delivers_iff_unshared hnew _).mp hall 0 (by decide) rfl⟩

/-- Producer 0 pushes 7 and 8 at the same time, and a pop ends because slot 0 is empty while 7 is on
its way. -/
theorem shared_pop_finds_nothing :
    ∃ (marks : List (Mark Nat)) (m : Machine Nat),
      SharedRun (fun id => id = 0) ⟨empty 2 1 1, fun _ => .none⟩ marks m ∧
        m.calls 0 = some (.producing 0 (.compare (.push 7) 0)) ∧
        m.calls 1 = some (.producing 0 (.compare (.push 8) 1)) ∧
        m.calls 2 = some (.consuming 0 (.rest 0 none)) ∧
        m.ring.outcome? (.consuming 0 (.rest 0 none)) = some (.misuse (.emptySlot 0)) ∧
        ¬ Delivers 2 marks m := by
  have hnew : RingBuffer.new 2 1 1 = .ok (empty 2 1 1 : RingBuffer Nat) := rfl
  obtain ⟨marks, m, hrun, hfirst, hsecond, hpop⟩ :=
    @exists_empty_pop _ (fun id => id = 0) _ _ _ _ hnew 0 (by decide) rfl 7 8
  refine ⟨marks, m, hrun, hfirst, hsecond, hpop, rfl, fun hdelivers => ?_⟩
  obtain ⟨a, ha⟩ := hdelivers.2 hpop rfl
  cases ha

end Machine

end Lineage.RingBuffer

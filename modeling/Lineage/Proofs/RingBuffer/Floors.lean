import Lineage.Proofs.RingBuffer.Opening
import Mathlib.Order.Lattice.Nat

/-!
# The kept bounds under races

Whoever waits computes a bound from a counter and the cursors, one after the other, and keeps it
whatever others have kept in the meantime.  So a bound may be out of date when it is kept, and may
be lower than the one it replaces.  It is never too high: no position below it is claimed and
unpublished, or wanted and unreturned, not even before it is kept and not even if it is half done
(`Machine.bounds_sound`).
-/

namespace Lineage.RingBuffer

variable {α : Type}

/-! ## The lowest positions at work -/

/-- The lowest position that a producer has claimed and not published, or `head` if there is
none. -/
noncomputable def firstUnpublished (l : Ledger α) (r : RingBuffer α) : Nat :=
  sInf (insert r.head {k | k < r.head ∧ ¬ l.Published k})

/-- The lowest position that a consumer has claimed and not returned, or `tail` if there is none. -/
noncomputable def firstUnreturned (l : Ledger α) (r : RingBuffer α) : Nat :=
  sInf (insert r.tail {k | k < r.tail ∧ l.returned k = false})

/-- A bound for `firstHead` that a call is about to keep, or would keep if it read the cursors that
it has not read yet as they are. -/
def claimCandidate (r : RingBuffer α) : Activity α → Option Nat
  | .consuming _ (.scan _ floor next) =>
      some (floorOf floor ((r.producers.toList.map ProducerRole.cursor).drop next))
  | .consuming _ (.keep _ floor) => some floor
  | _ => none

/-- A bound for `lastTail` that a call is about to keep, or would keep if it read the cursors that
it has not read yet as they are. -/
def wantCandidate (r : RingBuffer α) : Activity α → Option Nat
  | .producing _ (.scan _ _ floor next) =>
      some (floorOf floor ((r.consumers.toList.map ConsumerRole.cursor).drop next))
  | .producing _ (.keep _ _ floor) => some floor
  | _ => none

section Lowest

variable {l : Ledger α} {r : RingBuffer α} {k : Nat}

theorem le_sInf_insert_iff {top : Nat} {s : Set Nat} :
    k ≤ sInf (insert top s) ↔ k ≤ top ∧ ∀ j ∈ s, k ≤ j := by
  rw [le_csInf_iff (OrderBot.bddBelow _) ⟨top, Set.mem_insert top s⟩]
  simp

theorem le_firstUnpublished_iff :
    k ≤ firstUnpublished l r ↔
      k ≤ r.head ∧ ∀ j < r.head, ¬ l.Published j → k ≤ j := by
  simp [firstUnpublished, le_sInf_insert_iff]

theorem le_firstUnreturned_iff :
    k ≤ firstUnreturned l r ↔
      k ≤ r.tail ∧ ∀ j < r.tail, l.returned j = false → k ≤ j := by
  simp [firstUnreturned, le_sInf_insert_iff]

/-- A number that no claim under way begins below is at most the lowest unpublished position. -/
theorem le_firstUnpublished (hhead : k ≤ r.head)
    (hclaims : ∀ {id b c}, l.claim id = some (b, c) → k ≤ b) :
    k ≤ firstUnpublished l r := by
  refine le_firstUnpublished_iff.mpr ⟨hhead, fun j _ hj => ?_⟩
  simp only [Ledger.Published, not_forall, not_not] at hj
  obtain ⟨id, b, c, hclaim, hb, -⟩ := hj
  exact Nat.le_trans (hclaims hclaim) hb

end Lowest

/-! ## Positions that are not returned -/

/-- A consumer is after its position until it returns the item. -/
theorem returned_or_wanted {capacity : Nat} {marks : List (Mark α)} (h : Lawful capacity marks)
    {k id : Nat} (htaker : (ledger marks).taker k = some id) :
    (ledger marks).returned k = true ∨ (ledger marks).want id = some k := by
  induction marks using List.reverseRecOn with
  | nil => cases htaker
  | append_singleton marks mark ih =>
      obtain ⟨hinit, hmark⟩ := h.init
      rw [ledger_snoc] at htaker ⊢
      cases mark with
      | wanted j position =>
          simp only [Ledger.add] at htaker ⊢
          split at htaker
          next hsame =>
            cases htaker
            exact .inr (by simp [hsame])
          next =>
            refine (ih hinit htaker).imp_right fun hwant => ?_
            have hne : id ≠ j := by
              rintro rfl
              rw [hmark.1] at hwant
              cases hwant
            rw [if_neg hne]
            exact hwant
      | returned j position item =>
          simp only [Ledger.add] at htaker ⊢
          rcases ih hinit htaker with hreturned | hwant
          · exact .inl (by simp [hreturned])
          · by_cases hsame : id = j
            · subst hsame
              rw [hmark.1] at hwant
              cases hwant
              exact .inl (if_pos rfl)
            · exact .inr (by simp [hsame, hwant])
      | _ => exact ih hinit htaker

/-- A number that no consumer is after a position below is at most the lowest unreturned
position. -/
theorem le_firstUnreturned {capacity : Nat} {marks : List (Mark α)} {r : RingBuffer α} {k : Nat}
    (hs : Sound (ledger marks) r) (hlawful : Lawful capacity marks) (htail : k ≤ r.tail)
    (hwants : ∀ {id j}, (ledger marks).want id = some j → k ≤ j) :
    k ≤ firstUnreturned (ledger marks) r := by
  refine le_firstUnreturned_iff.mpr ⟨htail, fun j hj hopen => ?_⟩
  obtain ⟨id, htaker⟩ := hs.taker_iff.mpr hj
  rcases returned_or_wanted hlawful htaker with hreturned | hwant
  · rw [hreturned] at hopen
    cases hopen
  · exact hwants hwant

/-! ## Candidates -/

section Candidates

variable {l : Ledger α} {r : RingBuffer α} {floor next : Nat}

/-- The least of a half-done bound and the cursors that are left. -/
theorem le_floorOf_drop_iff {ρ : Type} {k : Nat} {roles : Array ρ} {cursor : ρ → Nat}
    (d : ρ) :
    k ≤ floorOf floor ((roles.toList.map cursor).drop next) ↔
      k ≤ floor ∧ ∀ id, next ≤ id → id < roles.size →
        k ≤ cursor (roles.getD id d) := by
  rw [le_floorOf_iff]
  refine and_congr_right fun _ => ⟨fun h id hnext hid => ?_, fun h x hx => ?_⟩
  · refine h _ (List.mem_iff_getElem.mpr ⟨id - next, by simp; omega, ?_⟩)
    simp [Nat.add_sub_cancel' hnext, hid]
  · obtain ⟨i, hi, rfl⟩ := List.mem_iff_getElem.mp hx
    simp only [List.length_drop, List.length_map, Array.length_toList] at hi
    have hid : next + i < roles.size := by omega
    simpa [hid] using h (next + i) (Nat.le_add_right _ _) hid

/-- A half-done bound is completed by any cursors that are not too high. -/
theorem FloorOfClaims.complete (hs : Sound l r) (h : FloorOfClaims l r floor next) {id b c : Nat}
    (hclaim : l.claim id = some (b, c)) :
    floorOf floor ((r.producers.toList.map ProducerRole.cursor).drop next) ≤ b := by
  obtain ⟨hfloor, hleft⟩ := (le_floorOf_drop_iff { cursor := atRest }).mp (Nat.le_refl
    (floorOf floor ((r.producers.toList.map ProducerRole.cursor).drop next)))
  rcases Nat.lt_or_ge id next with hread | hunread
  · exact Nat.le_trans hfloor (h.2 id b c hread hclaim)
  · exact Nat.le_trans (hleft id hunread (hs.claim_lt hclaim)) (hs.cursor_le_claim hclaim)

theorem FloorOfWants.complete (hs : Sound l r) (h : FloorOfWants l r floor next) {id k : Nat}
    (hwant : l.want id = some k) :
    floorOf floor ((r.consumers.toList.map ConsumerRole.cursor).drop next) ≤ k := by
  obtain ⟨hfloor, hleft⟩ := (le_floorOf_drop_iff { cursor := atRest }).mp (Nat.le_refl
    (floorOf floor ((r.consumers.toList.map ConsumerRole.cursor).drop next)))
  rcases Nat.lt_or_ge id next with hread | hunread
  · exact Nat.le_trans hfloor (h.2 id k hread hwant)
  · exact Nat.le_trans (hleft id hunread (hs.want_lt hwant)) (hs.cursor_le_want hwant)

theorem floorOf_le {counter : Nat} {cursors : List Nat} : floorOf counter cursors ≤ counter :=
  (le_floorOf_iff.mp (Nat.le_refl _)).1

/-- What a call may keep as `firstHead` is at most `head` and the first position of every claim
under way. -/
theorem claimCandidate_le (hs : Sound l r) {a : Activity α} (ha : ActivityFits l r a) {k : Nat}
    (hk : r.claimCandidate a = some k) :
    k ≤ r.head ∧ ∀ {id b c}, l.claim id = some (b, c) → k ≤ b := by
  cases a with
  | producing id p => cases hk
  | consuming id p =>
      obtain ⟨-, hp⟩ := ha
      cases p with
      | scan position floor next =>
          cases hk
          exact ⟨Nat.le_trans floorOf_le hp.2.1, hp.2.complete hs⟩
      | keep position floor =>
          cases hk
          exact ⟨hp.2.1, fun hclaim => hp.2.2 _ _ _ (hs.claim_lt hclaim) hclaim⟩
      | _ => cases hk

/-- What a call may keep as `lastTail` is at most `tail` and every position that a consumer is
after. -/
theorem wantCandidate_le (hs : Sound l r) {a : Activity α} (ha : ActivityFits l r a) {k : Nat}
    (hk : r.wantCandidate a = some k) :
    k ≤ r.tail ∧ ∀ {id j}, l.want id = some j → k ≤ j := by
  cases a with
  | consuming id p => cases hk
  | producing id p =>
      obtain ⟨-, hp⟩ := ha
      cases p with
      | scan c base floor next =>
          cases hk
          exact ⟨Nat.le_trans floorOf_le hp.2.2.1, hp.2.2.complete hs⟩
      | keep c base floor =>
          cases hk
          exact ⟨hp.2.2.1, fun hwant => hp.2.2.2 _ _ (hs.want_lt hwant) hwant⟩
      | _ => cases hk

end Candidates

namespace Machine

/-- The kept bounds and those that calls are about to keep are not too high, and none of them is the
cursor of a role at rest, as long as the counters have not come that far. -/
structure BoundsSound (l : Ledger α) (m : Machine α) : Prop where
  firstHead : m.ring.firstHead ≤ firstUnpublished l m.ring
  claims : ∀ {caller a k}, m.calls caller = some a → m.ring.claimCandidate a = some k →
    k ≤ firstUnpublished l m.ring
  lastTail : m.ring.lastTail ≤ firstUnreturned l m.ring
  wants : ∀ {caller a k}, m.calls caller = some a → m.ring.wantCandidate a = some k →
    k ≤ firstUnreturned l m.ring
  firstHead_ne : m.ring.head < atRest → m.ring.firstHead ≠ atRest
  lastTail_ne : m.ring.tail < atRest → m.ring.lastTail ≠ atRest

/-- The invariant of a run bounds what is kept and what is about to be kept. -/
theorem Fits.boundsSound {capacity : Nat} {marks : List (Mark α)} {m : Machine α}
    (h : Fits (ledger marks) m) (hlawful : Lawful capacity marks) :
    BoundsSound (ledger marks) m where
  firstHead := le_firstUnpublished h.sound.firstHead_le_head h.sound.firstHead_le_claim
  claims ha hk :=
    have hle := claimCandidate_le h.sound (h.calls ha) hk
    le_firstUnpublished hle.1 hle.2
  lastTail := le_firstUnreturned h.sound hlawful h.sound.lastTail_le_tail h.sound.lastTail_le_want
  wants ha hk :=
    have hle := wantCandidate_le h.sound (h.calls ha) hk
    le_firstUnreturned h.sound hlawful hle.1 hle.2
  firstHead_ne hlt := Nat.ne_of_lt (Nat.lt_of_le_of_lt h.sound.firstHead_le_head hlt)
  lastTail_ne hlt := Nat.ne_of_lt (Nat.lt_of_le_of_lt h.sound.lastTail_le_tail hlt)

end Machine

/-! ## Bounds that are lowered -/

/-- A ring buffer with an item that nobody has set out to take, and no role that works on its
position. -/
structure Loaded (capacity producers consumers : Nat) (item : α) (r : RingBuffer α) : Prop where
  capacity : r.capacity = capacity
  producers : r.producers.size = producers
  consumers : r.consumers.size = consumers
  ready : Ready r
  head : 0 < r.head
  tail : r.tail = 0
  firstHead : r.firstHead = 0
  lastTail : r.lastTail = 0
  slot : r.slot 0 = some item
  producer : ∀ id, 0 < (r.producer id).cursor
  consumer : ∀ id, id < r.consumers.size → r.consumer id = { cursor := atRest, held := true }

section Loaded

variable {capacity producers consumers id : Nat} {item : α} {r : RingBuffer α}

theorem Staffed.load (h : Staffed capacity producers consumers producers consumers r)
    (hid : id < producers) (hpos : 0 < capacity) :
    Loaded capacity producers consumers item (r.afterPush id 0 item) where
  capacity := h.capacity
  producers := by simpa [afterPush, setProducerCursor, setSlot] using h.producers
  consumers := h.consumers
  ready := h.ready.afterPush (h.producers ▸ hid) 0 item
  head := Nat.succ_pos _
  tail := h.tail
  firstHead := h.firstHead
  lastTail := rfl
  slot := by
    have hroom : r.head % r.capacity < r.slots.size :=
      h.size_slots.symm ▸ Nat.mod_lt _ (h.capacity.symm ▸ hpos)
    have hslot := slot_setSlot (r.setProducerCursor id atRest) hroom (some item) 0
    rw [if_pos (by rw [h.head])] at hslot
    exact hslot
  producer j := by
    rw [producer_afterPush (h.producers ▸ hid), h.producer j]
    split <;> exact atRest_pos
  consumer j hj := by
    refine (h.consumer j).trans ?_
    rw [decide_eq_true (h.consumers ▸ hj)]

theorem Loaded.claim (h : Loaded capacity producers consumers item r) (hid : id < producers)
    (c : Claim α) :
    Loaded capacity producers consumers item (r.afterClaim id c) where
  capacity := h.capacity
  producers := by simpa [afterClaim, setProducerCursor] using h.producers
  consumers := h.consumers
  ready := h.ready.afterClaim (h.producers ▸ hid) c
  head := Nat.lt_of_lt_of_le h.head (Nat.le_add_right _ _)
  tail := h.tail
  firstHead := h.firstHead
  lastTail := h.lastTail
  slot := h.slot
  producer j := by
    rw [producer_afterClaim (h.producers ▸ hid)]
    split
    · exact h.head
    · exact h.producer j
  consumer := h.consumer

theorem Loaded.lt_claimFloor (h : Loaded capacity producers consumers item r) :
    r.tail < r.claimFloor :=
  h.tail.trans_lt (le_claimFloor_iff.mpr ⟨h.head, fun id _ => h.producer id⟩)

end Loaded

namespace Machine

variable {sharing : Sharing} {start m : Machine α} {marks : List (Mark α)}

/-- In some run a step lowers a bound. -/
def Lowers (bound : RingBuffer α → Nat) (r : RingBuffer α) : Prop :=
  ∃ (marks : List (Mark α)) (m : Machine α) (mark : Mark α) (m' : Machine α),
    Run .turns ⟨r, fun _ => none⟩ marks m ∧ Step .turns m mark m' ∧
      bound m'.ring < bound m.ring

/-- A bound that a consumer computed early is kept late. -/
theorem lowers_firstHead {capacity producers consumers : Nat} {r : RingBuffer α}
    (hnew : RingBuffer.new capacity producers consumers = .ok r) (item : α)
    (htwo : 1 < consumers) :
    Lowers RingBuffer.firstHead r := by
  obtain ⟨hcapacity, hproducers, -⟩ := sizes_pos_of_new hnew
  obtain ⟨_, r₀, hstaff, hs⟩ := @exists_staffed _ .turns _ _ _ _ hnew
  have hid : 0 < r₀.consumers.size := hs.consumers ▸ Nat.zero_lt_of_lt htwo
  have hheld : ∀ id, id < consumers → (r₀.consumer id).held = true := by
    intro id hlt
    rw [hs.consumer id, decide_eq_true hlt]
  -- Consumer 0 computes a bound while nothing has been pushed, and does not keep it yet.
  obtain ⟨_, hwant⟩ := run_want 0 0 hstaff
    ⟨rfl, hheld 0 (Nat.zero_lt_of_lt htwo), fun _ => isFree_of_no_call _ _⟩
  obtain ⟨r₁, hr₁⟩ : ∃ r₁, r₁ = r₀.afterWant 0 := ⟨_, rfl⟩
  have hfirstHead₁ : r₁.firstHead = 0 := hr₁ ▸ hs.firstHead
  obtain ⟨_, position, floor, hfloor, hread⟩ : ∃ marks position floor, floor ≤ 0 ∧
      Run .turns ⟨r, fun _ => none⟩ marks
      (Machine.setCall ⟨r₁, fun _ => none⟩ 0
        (some (.consuming 0 (.keep position floor)))) := by
    have hhead₁ : r₁.head = 0 := hr₁ ▸ hs.head
    rw [← hr₁] at hwant
    obtain ⟨_, hlacking⟩ := run_lacking hwant (hfirstHead₁.trans_le (Nat.zero_le _))
    obtain ⟨_, hread⟩ := run_scan_claims (hlacking.advance rfl)
    exact ⟨_, _, _, floorOf_le.trans_eq hhead₁, hread⟩
  -- An item is pushed.
  obtain ⟨_, r₂, hpushed, hheld₂, hfirstHead₂, hfloor₂⟩ : ∃ marks r₂,
      Run .turns ⟨r, fun _ => none⟩ marks
      (Machine.setCall ⟨r₂, fun _ => none⟩ 0 (some (.consuming 0 (.keep position floor)))) ∧
        (r₂.consumer 1).held = true ∧ r₂.firstHead = 0 ∧ 0 < r₂.claimFloor := by
    have hready : Ready r₁ := hr₁ ▸ hs.ready
    have hid₁ : 0 < r₁.producers.size := hr₁ ▸ hs.producers ▸ hproducers
    have hlastTail : r₁.lastTail ≤ r₁.wantFloor :=
      (hr₁ ▸ hs.lastTail : r₁.lastTail = 0).trans_le (Nat.zero_le _)
    have hroom : r₁.head < r₁.wantFloor + r₁.capacity := by
      have hhead : r₁.head = 0 := hr₁ ▸ hs.head
      have hcapacity₁ : r₁.capacity = capacity := hr₁ ▸ hs.capacity
      omega
    obtain ⟨_, kept, -, hpushed⟩ := run_push 2 0 item hread
      ⟨rfl, (hready 0 hid₁).1, fun _ => (isFree_of_no_call _ _).setCall_some
        (by simp [Activity.role])⟩ hid₁
      (hready 0 hid₁).2 hlastTail hroom
    refine ⟨_, r₁.afterPush 0 kept item, hpushed, ?_, hfirstHead₁, ?_⟩
    · have hheld₁ : (r₁.consumer 1).held = true := by
        rw [hr₁, consumer_afterWant hid, if_neg (by decide), hheld 1 htwo]
      exact hheld₁
    · refine le_claimFloor_iff.mpr ⟨Nat.succ_pos _, fun id _ => ?_⟩
      rw [producer_afterPush hid₁]
      by_cases hsame : id = 0
      · rw [if_pos hsame]
        exact atRest_pos
      · have hcursor : (r₁.producer id).cursor = atRest := by
          rw [hr₁]
          exact congrArg ProducerRole.cursor (hs.producer id)
        rw [if_neg hsame, hcursor]
        exact atRest_pos
  -- Consumer 1 computes its bound after that and keeps it, and consumer 0 keeps its own in its
  -- place.
  obtain ⟨_, hwant⟩ := run_want 1 1 hpushed
    ⟨rfl, hheld₂, fun _ => (isFree_of_no_call _ _).setCall_some (by simp [Activity.role])⟩
  have hfirstHead₃ : (r₂.afterWant 1).firstHead ≤ r₂.tail :=
    hfirstHead₂.trans_le (Nat.zero_le _)
  obtain ⟨_, hlacking⟩ := run_lacking hwant hfirstHead₃
  obtain ⟨_, hkept⟩ := run_pass_consumer hlacking
  have hfloor₃ : 0 < (r₂.afterWant 1).claimFloor := hfloor₂
  exact ⟨_, _, _, _, hkept, @Step.advance _ _ _ 0 _ rfl, Nat.lt_of_le_of_lt hfloor hfloor₃⟩

/-- A producer that reserves a whole lap waits if anything has been claimed since `lastTail`. -/
theorem run_lap (caller id : Nat) (hrun : Run sharing start marks m)
    (hmay : MayStart sharing m caller ⟨.producer, id⟩) (hready : Ready m.ring)
    (hid : id < m.ring.producers.size) (hpos : 0 < m.ring.capacity)
    (hsince : m.ring.lastTail < m.ring.head) :
    ∃ marks', Run sharing start marks'
      ({ m with ring := m.ring.afterClaim id (.reserve m.ring.capacity) }.setCall
      caller (some (.producing id (.readTail (.reserve m.ring.capacity) m.ring.head)))) := by
  obtain ⟨_, hclaim⟩ := run_claim caller id hrun hmay (hready.checkClaim_lap hid hpos)
  refine run_full hclaim ?_
  have hsame : (m.ring.afterClaim id (.reserve m.ring.capacity)).lastTail +
      (m.ring.afterClaim id (.reserve m.ring.capacity)).capacity =
        m.ring.lastTail + m.ring.capacity := rfl
  simp only [hsame, Claim.size]
  omega

/-- A bound that a producer computed early is kept late. -/
theorem lowers_lastTail {capacity producers consumers : Nat} {r : RingBuffer α}
    (hnew : RingBuffer.new capacity producers consumers = .ok r) (item : α)
    (htwo : 1 < producers) :
    Lowers RingBuffer.lastTail r := by
  obtain ⟨hcapacity, -, hconsumers⟩ := sizes_pos_of_new hnew
  have hfirst : 0 < producers := Nat.zero_lt_of_lt htwo
  -- Producer 0 pushes an item, so there is no room for a whole lap.
  obtain ⟨_, r₁, hpushed, h₁⟩ : ∃ marks r₁, Run .turns ⟨r, fun _ => none⟩ marks
      ⟨r₁, fun _ => none⟩ ∧
      Loaded capacity producers consumers item r₁ := by
    obtain ⟨_, r₀, hstaff, hs⟩ := @exists_staffed _ .turns _ _ _ _ hnew
    have hid : 0 < r₀.producers.size := hs.producers ▸ hfirst
    have hpos : r₀.head < r₀.capacity := hs.head.trans_lt (hs.capacity ▸ hcapacity)
    obtain ⟨_, kept, hkept, hpushed⟩ := run_push 0 0 item hstaff
      ⟨rfl, (hs.ready 0 hid).1, fun _ => isFree_of_no_call _ _⟩ hid (hs.ready 0 hid).2
      (hs.lastTail.trans_le (Nat.zero_le _)) (Nat.lt_of_lt_of_le hpos (Nat.le_add_left _ _))
    obtain rfl : kept = 0 :=
      Nat.le_zero.mp (hkept.trans ((le_wantFloor_iff.mp (Nat.le_refl _)).1.trans_eq hs.tail))
    exact ⟨_, _, hpushed, hs.load hfirst hcapacity⟩
  -- Producer 1 reserves a lap and computes a bound, and does not keep it yet.
  obtain ⟨_, r₂, c, base, floor, hread, hfloor, h₂⟩ : ∃ marks r₂ c base floor,
      Run .turns ⟨r, fun _ => none⟩ marks
      (Machine.setCall ⟨r₂, fun _ => none⟩ 1 (some (.producing 1 (.keep c base floor)))) ∧
        floor ≤ 0 ∧ Loaded capacity producers consumers item r₂ := by
    have hid : 1 < r₁.producers.size := h₁.producers ▸ htwo
    obtain ⟨_, hfull⟩ :=
      run_lap 1 1 hpushed ⟨rfl, (h₁.ready 1 hid).1, fun _ => isFree_of_no_call _ _⟩
        h₁.ready hid (h₁.capacity ▸ hcapacity) (h₁.lastTail.trans_lt h₁.head)
    obtain ⟨_, hread⟩ := run_scan_wants (hfull.advance rfl)
    exact ⟨_, _, _, _, _, hread, floorOf_le.trans_eq h₁.tail, h₁.claim htwo _⟩
  -- Producer 0 reserves a lap too and waits.
  obtain ⟨_, r₃, c', base', hfull, h₃⟩ : ∃ marks r₃ c' base',
      Run .turns ⟨r, fun _ => none⟩ marks
      ((Machine.setCall ⟨r₃, fun _ => none⟩ 1
        (some (.producing 1 (.keep c base floor)))).setCall 0
        (some (.producing 0 (.readTail c' base')))) ∧
          Loaded capacity producers consumers item r₃ := by
    have hid : 0 < r₂.producers.size := h₂.producers ▸ hfirst
    obtain ⟨_, hfull⟩ := run_lap 0 0 hread
      ⟨rfl, (h₂.ready 0 hid).1, fun _ => (isFree_of_no_call _ _).setCall_some
        (by simp [Activity.role])⟩
      h₂.ready hid (h₂.capacity ▸ hcapacity) (h₂.lastTail.trans_lt h₂.head)
    exact ⟨_, _, _, _, hfull, h₂.claim hfirst _⟩
  -- The item is popped, and producer 0 keeps its bound after that.
  have hid : 0 < r₃.consumers.size := h₃.consumers ▸ hconsumers
  have hheld : (r₃.consumer 0).held = true := by
    rw [h₃.consumer 0 hid]
  obtain ⟨_, kept, hpopped⟩ := run_pop 2 0 hfull
    ⟨rfl, hheld,
      fun _ => ((isFree_of_no_call _ _).setCall_some (by simp [Activity.role])).setCall_some
      (by simp [Activity.role])⟩
    hid (h₃.firstHead.trans_le (Nat.zero_le _)) h₃.lt_claimFloor (h₃.tail ▸ h₃.slot)
  have hwaiting : Run .turns ⟨r, fun _ => none⟩ _
      ((Machine.setCall ⟨r₃.afterTake 0 kept, fun _ => none⟩ 1
        (some (.producing 1 (.keep c base floor)))).setCall 0
        (some (.producing 0 (.readTail c' base')))) := hpopped
  obtain ⟨_, hkept⟩ := run_pass_producer hwaiting
  refine ⟨_, _, _, _, hkept, @Step.advance _ _ _ 1 _ rfl, ?_⟩
  refine Nat.lt_of_le_of_lt hfloor (le_wantFloor_iff.mpr ⟨Nat.succ_pos _, fun id hlt => ?_⟩)
  have hcursor : ((r₃.afterTake 0 kept).consumer id).cursor = atRest := by
    rw [consumer_afterTake hid]
    split
    · rfl
    · rw [h₃.consumer id (by simpa [afterTake, setConsumerCursor, setSlot] using hlt)]
  exact atRest_pos.trans_eq hcursor.symm

/-- Whatever the order of the steps, the kept bounds are sound, and so are the bounds that calls are
about to keep or have computed in part.  `firstHead` and every candidate for it are at most the
lowest position that is claimed and not published, and `lastTail` and every candidate for it at most
the lowest position that is wanted and not returned.  Where two may wait on one side, there are runs
in which a kept bound is lowered. -/
theorem bounds_sound {capacity producers consumers : Nat} {r : RingBuffer α}
    (hnew : RingBuffer.new capacity producers consumers = .ok r)
    (hrun : Run .turns ⟨r, fun _ => none⟩ marks m) :
    BoundsSound (ledger marks) m ∧
      (Nonempty α → (1 < consumers → Lowers RingBuffer.firstHead r) ∧
        (1 < producers → Lowers RingBuffer.lastTail r)) := by
  obtain ⟨hfits, hlawful, -⟩ := run_fits hnew hrun
  exact ⟨hfits.boundsSound hlawful,
    fun ⟨item⟩ => ⟨lowers_firstHead hnew item, lowers_lastTail hnew item⟩⟩

/-- A step lowers `firstHead`, and the bounds are sound after it. -/
theorem bounds_sound_lowered :
    ∃ (marks : List (Mark Nat)) (m : Machine Nat) (mark : Mark Nat) (m' : Machine Nat),
      Run .turns ⟨empty 2 1 2, fun _ => none⟩ marks m ∧ Step .turns m mark m' ∧
        m'.ring.firstHead < m.ring.firstHead ∧ BoundsSound (ledger (marks ++ [mark])) m' := by
  have hnew : RingBuffer.new 2 1 2 = .ok (empty 2 1 2 : RingBuffer Nat) := rfl
  obtain ⟨marks, m, mark, m', hrun, hstep, hlower⟩ := lowers_firstHead hnew 7 (by decide)
  exact ⟨marks, m, mark, m', hrun, hstep, hlower, (bounds_sound hnew (hrun.snoc hstep)).1⟩

end Machine

end Lineage.RingBuffer

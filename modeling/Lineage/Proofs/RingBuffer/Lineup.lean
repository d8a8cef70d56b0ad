import Lineage.Proofs.RingBuffer.Floors
import Lineage.Proofs.RingBuffer.Orderly

/-!
# What the positions are for

A producer knows its items when it claims their positions, long before it stores them.  So the items
of all calls stand in a line from the first claim on, one for each position below `head`, and
whoever takes a position takes the item that stands there (`Machine.Lined`).

A reservation is filled after it is claimed.  Here one item, the *filler*, is all that anybody fills
in.

`Machine.Lined.advance` keeps the line.  When no consumer is after a position and the consumers have
come as far as the producers, everything in the line has been returned, and the ring buffer is empty
(`Machine.Lined.spent`).  If there is one consumer, it returns the line in order (`Machine.InTurn`).
-/

namespace Lineage.RingBuffer

variable {α : Type}

/-! ## Claims and their items -/

/-- The item that a claim is for, where `filler` is all that is filled in. -/
def Claim.item (filler : α) : Claim α → α
  | .push a => a
  | .reserve _ => filler

/-- The items that the next step of a call claims positions for. -/
def Activity.linesUp (filler : α) : Activity α → List α
  | .producing _ (.claim c) => List.replicate c.size (c.item filler)
  | _ => []

/-- Whether the next step of a call claims no position and lets none go. -/
def Activity.isQuiet : Activity α → Bool
  | .producing _ (.claim _) | .producing _ .rest | .consuming _ .claim
  | .consuming _ (.rest ..) => false
  | _ => true

/-- The consumer that returns an item, and the item. -/
def Mark.returned? : Mark α → Option (Nat × α)
  | .returned id _ (some a) => some (id, a)
  | _ => none

/-- The item of a position that is in no claim under way has been handed over, so only what was
reserved can be filled in, and that is the filler. -/
def ClaimedFor (filler : α) (items : List α) (l : Ledger α) (id : Nat) : Prop :=
  ∀ b n, l.claim id = some (b, n) → ∀ k, b ≤ k → k < b + n → items[k]? = some filler

/-- What a call of a producer has stored or will store is what its positions are for, and what it
lets go it has claimed. -/
def Meant (filler : α) (items : List α) (l : Ledger α) (id : Nat) : ProducerPoint α → Prop
  | .publish c base | .compare c base | .readTail c base | .scan c base _ _ | .keep c base _ =>
      ∀ k, base ≤ k → k < base + c.size → items[k]? = some (c.item filler)
  | .write a position => items[position]? = some a
  | .checkOffset a _ | .readBase a _ => a = filler ∧ ClaimedFor filler items l id
  | .fill a position => items[position]? = some a ∧ ClaimedFor filler items l id
  | .readReserved | .readFilled _ => (∃ x, l.claim id = some x) ∧ ClaimedFor filler items l id
  | .clearReserved | .clearCount | .rest => ∃ x, l.claim id = some x
  | _ => ClaimedFor filler items l id

/-- What a call means to store is what its positions are for. -/
def ActivityMeant (filler : α) (items : List α) (l : Ledger α) : Activity α → Prop
  | .producing id p => Meant filler items l id p
  | .consuming .. => True

/-- What a role between two calls has claimed, it has reserved. -/
def RoleMeant (filler : α) (items : List α) (l : Ledger α) (role : Role) : Prop :=
  match role.side with
  | .producer => ClaimedFor filler items l role.id
  | .consumer => True

/-- What is left of a call. -/
def MeantOn (filler : α) (items : List α) (l : Ledger α) (id : Nat) :
    Progress (ProducerPoint α) α → Prop
  | .next p => Meant filler items l id p
  | .ended _ => ClaimedFor filler items l id

/-! ## Claims and wants -/

section Own

variable (marks : List (Mark α)) (r : RingBuffer α) (id : Nat)

theorem claim_snoc_claim (c : Claim α) :
    (ledger (marks ++ [r.mark (.producing id (.claim c))])).claim id = some (r.head, c.size) := by
  rw [ledger_snoc]
  exact if_pos rfl

theorem claim_snoc_rest : (ledger (marks ++ [r.mark (.producing id .rest)])).claim id = none := by
  rw [ledger_snoc]
  exact if_pos rfl

/-- A producer changes its own claim only. -/
theorem claim_snoc_of_ne {j : Nat} (hj : j ≠ id) (p : ProducerPoint α) :
    (ledger (marks ++ [r.mark (.producing id p)])).claim j = (ledger marks).claim j := by
  rw [ledger_snoc]
  cases p with
  | claim | rest => exact if_neg hj
  | _ => rfl

theorem claim_snoc_consuming (p : ConsumerPoint α) :
    (ledger (marks ++ [r.mark (.consuming id p)])).claim = (ledger marks).claim := by
  rw [ledger_snoc]
  cases p <;> rfl

theorem want_snoc_claim :
    (ledger (marks ++ [r.mark (.consuming id .claim)])).want id = some r.tail := by
  rw [ledger_snoc]
  exact if_pos rfl

theorem want_snoc_rest (k : Nat) (item : Option α) :
    (ledger (marks ++ [r.mark (.consuming id (.rest k item))])).want id = none := by
  rw [ledger_snoc]
  exact if_pos rfl

/-- A consumer changes only what it is after itself. -/
theorem want_snoc_of_ne {j : Nat} (hj : j ≠ id) (p : ConsumerPoint α) :
    (ledger (marks ++ [r.mark (.consuming id p)])).want j = (ledger marks).want j := by
  rw [ledger_snoc]
  cases p with
  | claim | rest => exact if_neg hj
  | _ => rfl

theorem want_snoc_producing (p : ProducerPoint α) :
    (ledger (marks ++ [r.mark (.producing id p)])).want = (ledger marks).want := by
  rw [ledger_snoc]
  cases p <;> rfl

end Own

/-! ## One step -/

theorem getElem?_append_of_some {items : List α} {k : Nat} {a : α} (h : items[k]? = some a)
    (more : List α) :
    (items ++ more)[k]? = some a := by
  rwa [List.getElem?_append_left (List.getElem?_eq_some_iff.mp h).1]

section Steps

variable {filler : α} {items : List α} {l l' : Ledger α} {r : RingBuffer α} {id : Nat}

theorem ClaimedFor.frame (h : ClaimedFor filler items l id) (hclaim : l'.claim id = l.claim id)
    (more : List α) :
    ClaimedFor filler (items ++ more) l' id := by
  intro b n hl k hb hk
  rw [hclaim] at hl
  exact getElem?_append_of_some (h b n hl k hb hk) more

/-- Nobody else changes what a call means. -/
theorem Meant.frame {p : ProducerPoint α} (h : Meant filler items l id p)
    (hclaim : l'.claim id = l.claim id) (more : List α) :
    Meant filler (items ++ more) l' id p := by
  cases p with
  | publish | compare | readTail | scan | keep =>
      exact fun k hb hk => getElem?_append_of_some (h k hb hk) more
  | write => exact getElem?_append_of_some h more
  | checkOffset | readBase => exact ⟨h.1, h.2.frame hclaim more⟩
  | fill => exact ⟨getElem?_append_of_some h.1 more, h.2.frame hclaim more⟩
  | readReserved | readFilled => exact ⟨hclaim.symm ▸ h.1, h.2.frame hclaim more⟩
  | clearReserved | clearCount | rest =>
      obtain ⟨x, hx⟩ := h
      exact ⟨x, hclaim.trans hx⟩
  | _ => exact ClaimedFor.frame h hclaim more

/-- A call goes on to mean what it meant. -/
theorem stepProducer_meant {p : ProducerPoint α} (hp : ProducerFits l r id p)
    (hlength : items.length = r.head) (h : Meant filler items l id p) :
    MeantOn filler (items ++ (Activity.producing id p).linesUp filler)
      (l.add (r.producerMark id p)) id
      (r.stepProducer id p).2 := by
  have hnext : ∀ {q : ProducerPoint α}, Meant filler items l id q →
      Meant filler (items ++ []) l id q :=
    fun hq => hq.frame rfl []
  have hend : ClaimedFor filler items l id → ClaimedFor filler (items ++ []) l id :=
    fun hc => hc.frame rfl []
  cases p with
  | check c =>
      simp only [stepProducer]
      split <;> exact hend h
  | claim c =>
      intro k hb hk
      rw [Activity.linesUp, List.getElem?_append_right (by omega),
        List.getElem?_replicate, if_pos (by omega)]
  | compare c base =>
      simp only [stepProducer]
      split
      · exact hnext (q := .readTail c base) h
      · cases c with
        | push a => exact hnext (q := .write a base) (h base (Nat.le_refl _) (Nat.lt_succ_self _))
        | reserve count =>
            refine hend fun b n hclaim => ?_
            cases hclaim.symm.trans hp.1.claim
            exact h
  | scan c base floor next =>
      simp only [stepProducer]
      split
      · exact hnext (q := .scan c base (min floor (r.consumer next).cursor) (next + 1)) h
      · exact hnext (q := .keep c base floor) h
  | checkOffset a offset =>
      simp only [stepProducer]
      split
      · exact hend h.2
      · exact hnext (q := .readBase a offset) h
  | readBase a offset =>
      obtain ⟨hfilling, hlt⟩ := hp
      refine hnext (q := .fill a ((r.producer id).cursor + offset)) ⟨?_, h.2⟩
      rw [h.1]
      exact h.2 _ _ hfilling.claim _ (Nat.le_add_right ..) (Nat.add_lt_add_left hlt _)
  | fill a position =>
      simp only [stepProducer]
      split <;> exact hend h.2
  | readFilled reserved =>
      simp only [stepProducer]
      split
      · exact hend h.2
      · exact h.1
  | rest =>
      intro b n hclaim
      simp [producerMark, Ledger.add] at hclaim
  | publish c base => exact hnext (q := .compare c base) h
  | readTail c base => exact hnext (q := .scan c base r.tail 0) h
  | keep c base floor => exact hnext (q := .compare c base) h
  | write => exact ⟨_, hp.1.claim⟩
  | readReserved => exact hnext (q := .readFilled (r.producer id).reserved) h
  | clearReserved | clearCount => exact h
  | _ => exact hend h

theorem linesUp_of_quiet {a : Activity α} (h : a.isQuiet = true) : a.linesUp filler = [] := by
  cases a with
  | consuming => rfl
  | producing id p => cases p <;> first | rfl | cases h

/-- A quiet step leaves claims, wants and the two counters alone. -/
theorem stepActivity_quiet {a : Activity α} (h : a.isQuiet = true) (r : RingBuffer α)
    (l : Ledger α) :
    (r.stepActivity a).1.head = r.head ∧ (r.stepActivity a).1.tail = r.tail ∧
      (l.add (r.mark a)).claim = l.claim ∧ (l.add (r.mark a)).want = l.want ∧
        (r.mark a).returned? = none ∧
        (r.mark a).returnedPosition = none := by
  cases a with
  | producing id p =>
      rw [stepActivity_producing_fst]
      cases p with
      | claim | rest => cases h
      | check c =>
          simp only [stepProducer]
          split <;> exact ⟨rfl, rfl, rfl, rfl, rfl, rfl⟩
      | compare | scan | checkOffset | readFilled =>
          simp only [stepProducer]
          split <;> exact ⟨rfl, rfl, rfl, rfl, rfl, rfl⟩
      | _ => exact ⟨rfl, rfl, rfl, rfl, rfl, rfl⟩
  | consuming id p =>
      cases p with
      | claim | rest => cases h
      | compare | scan =>
          simp only [stepActivity, stepConsumer]
          split <;> rename_i heq <;> split at heq <;> cases heq <;>
            exact ⟨rfl, rfl, rfl, rfl, rfl, rfl⟩
      | _ => exact ⟨rfl, rfl, rfl, rfl, rfl, rfl⟩

end Steps

/-! ## Roles -/

section Roles

variable {l : Ledger α} {r r' : RingBuffer α} {role : Role}

/-- Who takes a role leaves the counters alone, and no call notices. -/
theorem unnoticed_take (hs : Sound l r) (h : r.take role = .ok r') :
    Machine.Unnoticed l r r' ∧ r'.head = r.head ∧ r'.tail = r.tail := by
  obtain ⟨side, id⟩ := role
  cases side with
  | producer =>
      simp only [take, takeProducer] at h
      split at h
      · cases h
      · rename_i hid
        split at h <;> cases h
        exact ⟨Machine.unnoticed_holdProducer hs (Nat.lt_of_not_le hid) true, rfl, rfl⟩
  | consumer =>
      simp only [take, takeConsumer] at h
      split at h
      · cases h
      · rename_i hid
        split at h <;> cases h
        exact ⟨Machine.unnoticed_holdConsumer hs (Nat.lt_of_not_le hid) true, rfl, rfl⟩

/-- Who leaves a role leaves the counters alone, and no call notices. -/
theorem unnoticed_leave (hs : Sound l r) (role : Role) :
    Machine.Unnoticed l r (r.leave role) ∧ (r.leave role).head = r.head ∧
      (r.leave role).tail = r.tail := by
  have hrefl : Machine.Unnoticed l r r :=
    ⟨hs, .refl l r, fun id => .refl id l r, fun id => .refl id l r⟩
  obtain ⟨side, id⟩ := role
  cases side with
  | producer =>
      by_cases hid : id < r.producers.size
      · exact ⟨Machine.unnoticed_holdProducer hs hid false, rfl, rfl⟩
      · have hsame : r.leave ⟨.producer, id⟩ = r := by
          simp [leave, leaveProducer, setProducer, Array.setIfInBounds, hid]
        rw [hsame]
        exact ⟨hrefl, rfl, rfl⟩
  | consumer =>
      by_cases hid : id < r.consumers.size
      · exact ⟨Machine.unnoticed_holdConsumer hs hid false, rfl, rfl⟩
      · have hsame : r.leave ⟨.consumer, id⟩ = r := by
          simp [leave, leaveConsumer, setConsumer, Array.setIfInBounds, hid]
        rw [hsame]
        exact ⟨hrefl, rfl, rfl⟩

end Roles

namespace Machine

/-! ## The line -/

/-- The items of all claims stand in a line, and nobody stores or returns anything else. -/
structure Lined (filler : α) (items : List α) (marks : List (Mark α)) (m : Machine α) :
    Prop where
  fits : Fits (ledger marks) m
  lawful : Lawful m.ring.capacity marks
  length : items.length = m.ring.head
  stored : ∀ {k id a}, (ledger marks).stored k = some (id, a) → items[k]? = some a
  claim_pos : ∀ {id b n}, (ledger marks).claim id = some (b, n) → 0 < n
  returned : ∀ {id k item}, .returned id k item ∈ marks →
    ∃ a, item = some a ∧ items[k]? = some a
  meant : m.Each (ActivityMeant filler items (ledger marks)) (RoleMeant filler items (ledger marks))

namespace Lined

variable {filler : α} {items : List α} {marks : List (Mark α)} {m : Machine α} {caller : Nat}

theorem new {capacity producers consumers : Nat} {r : RingBuffer α}
    (h : RingBuffer.new capacity producers consumers = .ok r) :
    Lined filler [] [] ⟨r, fun _ => none⟩ where
  fits := fits_new h
  lawful := lawful_nil _
  length := by simp [(eq_empty_of_new h).1, empty]
  stored hstored := by cases hstored
  claim_pos hclaim := by cases hclaim
  returned hmem := by cases hmem
  meant := by
    refine ⟨fun ha => (by cases ha), fun {role} _ => ?_⟩
    obtain ⟨side, id⟩ := role
    cases side with
    | producer => exact fun b n hclaim => by cases hclaim
    | consumer => trivial

/-- Nobody in the line notices that someone takes or leaves a role. -/
theorem setRing (h : Lined filler items marks m) {r : RingBuffer α}
    (hu : Unnoticed (ledger marks) m.ring r) (hhead : r.head = m.ring.head) :
    Lined filler items marks { m with ring := r } where
  fits := h.fits.setRing hu
  lawful := hu.grows.capacity ▸ h.lawful
  length := h.length.trans hhead.symm
  stored := h.stored
  claim_pos := h.claim_pos
  returned := h.returned
  meant := ⟨h.meant.calls, h.meant.rests⟩

/-- A call begins. -/
theorem start (h : Lined filler items marks m) {a : Activity α}
    (hfits : Fits (ledger marks) (m.setCall caller (some a))) (hcaller : m.calls caller = none)
    (ha : ActivityMeant filler items (ledger marks) a) :
    Lined filler items marks (m.setCall caller (some a)) :=
  { h with
    fits := hfits
    meant := h.meant.start hcaller ha }

theorem produce (h : Lined filler items marks m) {id : Nat} {call : ProducerCall α}
    (hmay : MayStart .turns m caller ⟨.producer, id⟩)
    (hfill : ∀ a offset, call = .fill a offset → a = filler)
    (hrelease : call = .release → ∃ x, (ledger marks).claim id = some x) :
    Lined filler items marks (m.setCall caller (some (.producing id call.start))) := by
  refine h.start (h.fits.step (.produce call hmay)).2.1 hmay.1 ?_
  have hrole : ClaimedFor filler items (ledger marks) id := h.meant.rests (hmay.2.2 rfl)
  cases call with
  | fill a offset => exact ⟨hfill a offset rfl, hrole⟩
  | release => exact ⟨hrelease rfl, hrole⟩
  | push | reserve => exact hrole

theorem consume (h : Lined filler items marks m) {id : Nat}
    (hmay : MayStart .turns m caller ⟨.consumer, id⟩) :
    Lined filler items marks (m.setCall caller (some (.consuming id .readTail))) :=
  h.start (h.fits.step (.consume hmay)).2.1 hmay.1 trivial

/-- What is stored at a step is what its position is for. -/
theorem stored_step (h : Lined filler items marks m) {a : Activity α}
    (ha : m.calls caller = some a) {k id : Nat} {x : α}
    (hstored : ((ledger marks).add (m.ring.mark a)).stored k = some (id, x)) :
    items[k]? = some x := by
  have hmeant := h.meant.calls ha
  have hnew : ∀ {j position : Nat} {item : α}, items[position]? = some item →
      ((ledger marks).add (.stored j position item)).stored k = some (id, x) →
        items[k]? = some x := by
    intro j position item hitem hstored
    rcases Ledger.stored_of_stored hstored with ⟨rfl, heq⟩ | ⟨-, hold⟩
    · cases heq
      exact hitem
    · exact h.stored hold
  cases a with
  | consuming j p => cases p <;> exact h.stored hstored
  | producing j p =>
      cases p with
      | write item position => exact hnew hmeant hstored
      | fill item position => exact hnew hmeant.1 hstored
      | _ => exact h.stored hstored

/-- A claim has a position. -/
theorem claim_pos_step (h : Lined filler items marks m) {a : Activity α}
    (ha : m.calls caller = some a) {id b n : Nat}
    (hclaim : ((ledger marks).add (m.ring.mark a)).claim id = some (b, n)) : 0 < n := by
  cases a with
  | consuming j p => cases p <;> exact h.claim_pos hclaim
  | producing j p =>
      cases p with
      | claim c =>
          rcases Ledger.claim_of_claimed hclaim with ⟨-, -, rfl⟩ | ⟨-, hold⟩
          · exact (h.fits.calls ha).2.2.1
          · exact h.claim_pos hold
      | rest => exact h.claim_pos (Ledger.claim_of_published hclaim).2
      | _ => exact h.claim_pos hclaim

/-- A producer that comes to rest lets go what it has claimed. -/
theorem claim_of_rest (h : Lined filler items marks m) {id : Nat}
    (ha : m.calls caller = some (.producing id .rest)) :
    ∃ x, (ledger marks).claim id = some x :=
  h.meant.calls ha

/-- What is returned at a step is what its position is for. -/
theorem returned_step (h : Lined filler items marks m) {a : Activity α}
    (ha : m.calls caller = some a) {id k : Nat} {item : Option α}
    (hmark : m.ring.mark a = .returned id k item) :
    ∃ x, item = some x ∧ items[k]? = some x := by
  cases a with
  | producing j p => cases p <;> cases hmark
  | consuming j p =>
      cases p <;> cases hmark
      obtain ⟨i, x, rfl, -, hstored⟩ := (h.fits.calls ha).2.2.2
      exact ⟨x, rfl, h.stored hstored⟩

theorem head_step (r : RingBuffer α) (filler : α) (a : Activity α) :
    (r.stepActivity a).1.head = r.head + (a.linesUp filler).length := by
  by_cases hquiet : a.isQuiet = true
  · rw [(stepActivity_quiet hquiet r {}).1, linesUp_of_quiet hquiet]
    rfl
  · cases a with
    | producing id p =>
        cases p with
        | claim c => simp [stepActivity, stepProducer, Activity.linesUp]
        | rest => rfl
        | _ => exact absurd rfl hquiet
    | consuming id p =>
        cases p with
        | claim | rest => rfl
        | _ => exact absurd rfl hquiet

/-- A call goes one step on. -/
theorem advance (h : Lined filler items marks m) {a : Activity α} (ha : m.calls caller = some a) :
    Lined filler (items ++ a.linesUp filler) (marks ++ [m.ring.mark a]) (m.advance caller a) where
  fits := by
    rw [ledger_snoc]
    exact h.fits.advance ha
  lawful := by
    have hsame := (stepActivity_advance h.fits.sound (h.fits.calls ha)).grows.capacity
    rw [show (m.advance caller a).ring.capacity = m.ring.capacity from hsame]
    exact h.lawful.snoc (stepActivity_admits h.fits.sound (h.fits.calls ha))
  length := by
    rw [List.length_append, h.length]
    exact (head_step m.ring filler a).symm
  stored {k id x} hstored := by
    rw [ledger_snoc] at hstored
    exact getElem?_append_of_some (h.stored_step ha hstored) _
  claim_pos {id b n} hclaim := by
    rw [ledger_snoc] at hclaim
    exact h.claim_pos_step ha hclaim
  returned {id k item} hmem := by
    have hitem : ∃ x, item = some x ∧ items[k]? = some x := by
      rcases List.mem_append.mp hmem with hold | hnew
      · exact h.returned hold
      · exact h.returned_step ha (List.mem_singleton.mp hnew).symm
    obtain ⟨x, rfl, hx⟩ := hitem
    exact ⟨x, rfl, getElem?_append_of_some hx _⟩
  meant := by
    rw [ledger_snoc]
    have hadvance := stepActivity_advance h.fits.sound (h.fits.calls ha)
    refine h.meant.advance (h.fits.role_ne ha) ha (fun b hb => ?_) (fun hnone => ?_)
      (fun {b} hne hb => ?_)
      fun {role} hne hrole => ?_
    · cases a with
      | consuming id p =>
          cases b with
          | producing => cases role_stepActivity hb
          | consuming => trivial
      | producing id p =>
          obtain ⟨q, rfl, hnext⟩ := exists_next_of_stepActivity hb
          have hmeant := stepProducer_meant (h.fits.calls ha).2 h.length (h.meant.calls ha)
          rw [hnext] at hmeant
          exact hmeant
    · cases a with
      | consuming id p => trivial
      | producing id p =>
          obtain ⟨o, hended⟩ := exists_ended_of_stepActivity hnone
          have hmeant := stepProducer_meant (h.fits.calls ha).2 h.length (h.meant.calls ha)
          rw [hended] at hmeant
          exact hmeant
    · cases b with
      | consuming => trivial
      | producing id p => exact hb.frame (hadvance.producer (Role.producer_apart hne)).claim _
    · obtain ⟨side, id⟩ := role
      cases side with
      | consumer => trivial
      | producer => exact hrole.frame (hadvance.producer (Role.producer_apart hne)).claim _

/-- A step that claims nothing for a producer leaves the line as it is. -/
theorem advance_of_nil (h : Lined filler items marks m) {a : Activity α}
    (ha : m.calls caller = some a) (hnil : a.linesUp filler = []) :
    Lined filler items (marks ++ [m.ring.mark a]) (m.advance caller a) := by
  have hlined := h.advance ha
  rwa [hnil, List.append_nil] at hlined

/-! ### What was returned -/

/-- What was returned is what stands at the positions that were returned. -/
theorem items_returned (h : Lined filler items marks m) :
    (marks.filterMap Mark.returned?).map Prod.snd =
      (returnedPositions marks).filterMap (items[·]?) := by
  rw [List.map_filterMap, returnedPositions, List.filterMap_filterMap]
  refine List.filterMap_congr fun mark hmem => ?_
  cases mark with
  | returned id k item =>
      obtain ⟨a, rfl, hitem⟩ := h.returned hmem
      exact hitem.symm
  | _ => rfl

/-- As many items were returned as positions. -/
theorem length_returned (h : Lined filler items marks m) :
    (marks.filterMap Mark.returned?).length = (returnedPositions marks).length := by
  rw [returnedPositions, List.length_filterMap_eq_countP, List.length_filterMap_eq_countP]
  refine List.countP_congr fun mark hmem => ?_
  cases mark with
  | returned id k item =>
      obtain ⟨a, rfl, -⟩ := h.returned hmem
      exact Iff.rfl
  | _ => exact Iff.rfl

/-- Nobody is after a position, so all positions below `tail` are behind the consumers. -/
theorem taken_of_idle (h : Lined filler items marks m)
    (hidle : ∀ id, (ledger marks).want id = none) {k : Nat} (hk : k < m.ring.tail) :
    (ledger marks).taken k = true ∧ (ledger marks).returned k = true := by
  refine ⟨(h.fits.sound.taken_or_wanted hk).resolve_right fun ⟨id, hwant⟩ => ?_, ?_⟩
  · rw [hidle id] at hwant
    cases hwant
  · obtain ⟨id, htaker⟩ := h.fits.sound.taker_iff.mpr hk
    refine (returned_or_wanted h.lawful htaker).resolve_right fun hwant => ?_
    rw [hidle id] at hwant
    cases hwant

end Lined

end Machine

/-- Nothing is in a ring buffer or on its way into it. -/
structure IsEmpty (r : RingBuffer α) : Prop where
  /-- The producers have claimed as many positions as the consumers. -/
  counters : r.head = r.tail
  /-- No slot has an item. -/
  slots : ∀ slot ∈ r.slots, slot = none

/-- The first items of a list by their places. -/
theorem filterMap_getElem?_range (items : List α) (n : Nat) :
    (List.range n).filterMap (items[·]?) = items.take n := by
  induction n with
  | zero => rfl
  | succ n ih =>
      rw [List.range_succ, List.filterMap_append, ih, List.take_add_one]
      cases hitem : items[n]? <;> simp [hitem]

namespace Machine

namespace Lined

variable {filler : α} {items : List α} {marks : List (Mark α)} {m : Machine α} {caller : Nat}

/-- When all is behind the consumers, every slot is empty. -/
theorem slot_eq_none (h : Lined filler items marks m)
    (htaken : ∀ k, k < m.ring.head → (ledger marks).taken k = true) (j : Nat) :
    m.ring.slot j = none := by
  have hpos := h.fits.sound.capacity_pos
  -- The next position that the slot serves.
  have hexists : ∃ k, m.ring.head ≤ k ∧ k % m.ring.capacity = j % m.ring.capacity :=
    ⟨j + m.ring.capacity * m.ring.head,
      Nat.le_trans (Nat.le_mul_of_pos_left _ hpos) (Nat.le_add_left ..),
      Nat.add_mul_mod_self_left ..⟩
  classical
  obtain ⟨hhead, hmod⟩ := Nat.find_spec hexists
  have hslot : m.ring.slot (Nat.find hexists) = none := by
    refine h.fits.sound.slot_unstored (h.fits.sound.stored_eq_none hhead)
      fun i hi hsame => htaken i ?_
    refine Nat.lt_of_not_le fun hle => Nat.find_min hexists hi ⟨hle, hsame.trans hmod⟩
  rwa [slot, hmod] at hslot

/-- When no consumer is after a position and the consumers have come as far as the producers,
nothing is left. -/
theorem spent (h : Lined filler items marks m) (hidle : ∀ id, (ledger marks).want id = none)
    (hall : m.ring.head ≤ m.ring.tail) :
    m.ring.IsEmpty ∧ (∀ id, (ledger marks).claim id = none) ∧
      ((marks.filterMap Mark.returned?).map Prod.snd).Perm items := by
  have hs := h.fits.sound
  have htaken : ∀ k, k < m.ring.head → (ledger marks).taken k = true :=
    fun k hk => (h.taken_of_idle hidle (Nat.lt_of_lt_of_le hk hall)).1
  have hcounters : m.ring.head = m.ring.tail := by
    refine Nat.le_antisymm hall (Nat.le_of_not_lt fun hlt => ?_)
    obtain ⟨⟨id, a⟩, hstored⟩ := hs.taken_stored (h.taken_of_idle hidle hlt).1
    exact Nat.lt_irrefl _ (hs.owner_iff.mp ⟨id, hs.stored_owner hstored⟩)
  refine ⟨⟨hcounters, fun item hitem => ?_⟩, fun id => ?_, ?_⟩
  · obtain ⟨j, hj, rfl⟩ := Array.mem_iff_getElem.mp hitem
    have hslot := h.slot_eq_none htaken j
    rw [hs.size_slots] at hj
    simpa [slot, Nat.mod_eq_of_lt hj, hs.size_slots, hj] using hslot
  · cases hclaim : (ledger marks).claim id with
    | none => rfl
    | some x =>
        obtain ⟨b, n⟩ := x
        have hpos := h.claim_pos hclaim
        have hle := hs.claim_le_head hclaim
        exact absurd ⟨Nat.le_refl b, by omega⟩ (hs.taken_published (htaken b (by omega)) hclaim)
  · have hperm : (returnedPositions marks).Perm (List.range items.length) := by
      refine (List.perm_ext_iff_of_nodup h.lawful.nodup_returnedPositions List.nodup_range).mpr
        fun k => ?_
      rw [mem_returnedPositions, List.mem_range, h.length, hcounters]
      exact ⟨hs.returned_lt_tail, fun hk => (h.taken_of_idle hidle hk).2⟩
    rw [h.items_returned]
    have hitems := hperm.filterMap (items[·]?)
    rwa [filterMap_getElem?_range, List.take_length] at hitems

end Lined

/-! ## One consumer -/

/-- The only consumer of a ring buffer takes one position after the other. -/
structure InTurn (marks : List (Mark α)) (m : Machine α) : Prop where
  consumers : m.ring.consumers.size = 1
  returned : returnedPositions marks = List.range (returnedPositions marks).length
  idle : (ledger marks).want 0 = none → m.ring.tail = (returnedPositions marks).length
  busy : ∀ {k}, (ledger marks).want 0 = some k →
    k = (returnedPositions marks).length ∧ m.ring.tail = (returnedPositions marks).length + 1

namespace InTurn

variable {filler : α} {items : List α} {marks : List (Mark α)} {m : Machine α} {caller : Nat}

/-- A step that neither claims nor returns a position for the consumer keeps its turn. -/
theorem snoc (h : InTurn marks m) {m' : Machine α} {mark : Mark α}
    (hconsumers : m'.ring.consumers.size = m.ring.consumers.size)
    (htail : m'.ring.tail = m.ring.tail)
    (hwant : ((ledger marks).add mark).want = (ledger marks).want)
    (hnone : mark.returnedPosition = none) :
    InTurn (marks ++ [mark]) m' := by
  have hpositions : returnedPositions (marks ++ [mark]) = returnedPositions marks := by
    rw [returnedPositions_snoc, hnone, Option.toList_none, List.append_nil]
  refine ⟨hconsumers.trans h.consumers, ?_, ?_, ?_⟩
  · rw [hpositions]
    exact h.returned
  · rw [ledger_snoc, hwant, hpositions]
    exact fun hidle => htail.trans (h.idle hidle)
  · intro k
    rw [ledger_snoc, hwant, hpositions]
    exact fun hbusy => ⟨(h.busy hbusy).1, htail.trans (h.busy hbusy).2⟩

/-- A call goes one step on. -/
theorem advance (h : InTurn marks m) (hfits : Fits (ledger marks) m) {a : Activity α}
    (ha : m.calls caller = some a) : InTurn (marks ++ [m.ring.mark a]) (m.advance caller a) := by
  have hconsumers : (m.advance caller a).ring.consumers.size = m.ring.consumers.size :=
    (stepActivity_advance hfits.sound (hfits.calls ha)).grows.consumers
  by_cases hquiet : a.isQuiet = true
  · obtain ⟨-, htail, -, hwant, -, hnone⟩ := stepActivity_quiet hquiet m.ring (ledger marks)
    exact h.snoc hconsumers htail hwant hnone
  · cases a with
    | producing id p =>
        cases p with
        | claim | rest => exact h.snoc hconsumers rfl rfl rfl
        | _ => exact absurd rfl hquiet
    | consuming id p =>
        obtain ⟨hid, hp⟩ := hfits.calls ha
        obtain rfl : id = 0 := by
          rw [h.consumers] at hid
          omega
        cases p with
        | claim =>
            have htail := h.idle hp.1
            have hpositions : returnedPositions (marks ++ [m.ring.mark (.consuming 0 .claim)]) =
                returnedPositions marks := by
              rw [returnedPositions_snoc]
              exact List.append_nil _
            refine ⟨hconsumers.trans h.consumers, ?_, fun hidle => ?_, fun {k} hbusy => ?_⟩
            · rw [hpositions]
              exact h.returned
            · rw [want_snoc_claim] at hidle
              cases hidle
            · rw [want_snoc_claim] at hbusy
              cases hbusy
              rw [hpositions]
              exact ⟨htail, congrArg (· + 1) htail⟩
        | rest k item =>
            obtain ⟨rfl, htail⟩ := h.busy hp.1
            refine ⟨hconsumers.trans h.consumers, ?_, fun _ => ?_, fun {j} hbusy => ?_⟩
            · rw [returnedPositions_snoc, h.returned]
              simp [mark, consumerMark, Mark.returnedPosition, List.range_succ]
            · rw [returnedPositions_snoc, List.length_append]
              exact htail
            · rw [want_snoc_rest] at hbusy
              cases hbusy
        | _ => exact absurd rfl hquiet

/-- Roles change hands or calls begin, and no position is claimed or returned. -/
theorem of_tail_eq (h : InTurn marks m) {m' : Machine α}
    (hconsumers : m'.ring.consumers.size = m.ring.consumers.size)
    (htail : m'.ring.tail = m.ring.tail) :
    InTurn marks m' where
  consumers := hconsumers.trans h.consumers
  returned := h.returned
  idle hidle := htail.trans (h.idle hidle)
  busy hbusy := ⟨(h.busy hbusy).1, htail.trans (h.busy hbusy).2⟩

/-- The items come in the order of the line. -/
theorem returned_eq_take (h : InTurn marks m) (hlined : Lined filler items marks m) :
    (marks.filterMap Mark.returned?).map Prod.snd =
      items.take (marks.filterMap Mark.returned?).length := by
  rw [hlined.items_returned, h.returned, filterMap_getElem?_range, hlined.length_returned]

/-- The next item of the line is returned. -/
theorem next_returned (h : InTurn marks m) (hlined : Lined filler items marks m) {id k : Nat}
    {item : Option α} (ha : m.calls caller = some (.consuming id (.rest k item))) :
    ∃ a, item = some a ∧ items[(marks.filterMap Mark.returned?).length]? = some a := by
  obtain ⟨hid, hwant, -⟩ := hlined.fits.calls ha
  obtain rfl : id = 0 := by
    rw [h.consumers] at hid
    omega
  obtain ⟨a, rfl, hitem⟩ := hlined.returned_step ha rfl
  rw [hlined.length_returned, ← (h.busy hwant).1]
  exact ⟨a, rfl, hitem⟩

end InTurn

end Machine

end Lineage.RingBuffer

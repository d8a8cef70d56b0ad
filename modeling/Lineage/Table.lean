/-!
# Finite tables

A table maps keys to values and holds each key once.  It is a list of pairs, the pair that was
inserted last in front.  `get?` is its view.  The lemmas say what each operation does to the view
and to the number of keys.
-/

namespace Lineage

/-- A map with finitely many keys. -/
structure Table (κ α : Type) where
  /-- The keys with their values. -/
  entries : List (κ × α)
  /-- Each key is there once. -/
  nodup : (entries.map Prod.fst).Nodup

namespace Table

variable {κ α : Type} [DecidableEq κ]

/-- The table without a key. -/
def empty : Table κ α := ⟨[], .nil⟩

instance : EmptyCollection (Table κ α) := ⟨empty⟩

instance : Inhabited (Table κ α) := ⟨empty⟩

/-- The value of a key among some entries. -/
def find? (k : κ) : List (κ × α) → Option α
  | [] => none
  | (a, v) :: entries => if k = a then some v else find? k entries

/-- The value of a key. -/
def get? (t : Table κ α) (k : κ) : Option α := find? k t.entries

/-- Whether a key is there. -/
def contains (t : Table κ α) (k : κ) : Bool := (t.get? k).isSome

/-- The number of keys. -/
def size (t : Table κ α) : Nat := t.entries.length

/-- The entries without a key. -/
def without (k : κ) (entries : List (κ × α)) : List (κ × α) :=
  entries.filter fun e => e.1 ≠ k

omit [DecidableEq κ] in
theorem nodup_filter {p : κ × α → Bool} {entries : List (κ × α)}
    (h : (entries.map Prod.fst).Nodup) : ((entries.filter p).map Prod.fst).Nodup :=
  (List.filter_sublist.map Prod.fst).nodup h

theorem not_mem_keys_without (k : κ) (entries : List (κ × α)) :
    k ∉ (without k entries).map Prod.fst := by
  simp [without]

/-- The table without a key. -/
def erase (t : Table κ α) (k : κ) : Table κ α :=
  ⟨without k t.entries, nodup_filter t.nodup⟩

/-- The table with a value for a key, in place of the old one if there was one. -/
def insert (t : Table κ α) (k : κ) (v : α) : Table κ α :=
  ⟨(k, v) :: without k t.entries,
    List.nodup_cons.2 ⟨not_mem_keys_without k _, nodup_filter t.nodup⟩⟩

/-- The table with the value of one key changed, if it is there. -/
def modify (t : Table κ α) (k : κ) (f : α → α) : Table κ α :=
  ⟨t.entries.map fun e => (e.1, if e.1 = k then f e.2 else e.2), by
    simpa [List.map_map, Function.comp_def] using t.nodup⟩

/-! ## The view -/

theorem find?_without (k k' : κ) (entries : List (κ × α)) :
    find? k' (without k entries) = if k' = k then none else find? k' entries := by
  induction entries with
  | nil => simp [without, find?]
  | cons e es ih =>
    obtain ⟨a, v⟩ := e
    unfold without at ih ⊢
    by_cases ha : a = k
    · simp only [List.filter_cons, ha, ne_eq, not_true, decide_false, Bool.false_eq_true,
        if_false, ih, find?]
      grind
    · simp only [List.filter_cons, ha, ne_eq, not_false_eq_true, decide_true, if_true, find?, ih]
      grind

@[simp, grind =] theorem get?_empty (k : κ) : (empty : Table κ α).get? k = none := rfl

@[simp, grind =] theorem get?_erase (t : Table κ α) (k k' : κ) :
    (t.erase k).get? k' = if k' = k then none else t.get? k' :=
  find?_without k k' t.entries

@[simp, grind =] theorem get?_insert (t : Table κ α) (k k' : κ) (v : α) :
    (t.insert k v).get? k' = if k' = k then some v else t.get? k' := by
  have h := find?_without k k' t.entries
  simp only [get?, insert, find?]
  grind

@[simp, grind =] theorem get?_modify (t : Table κ α) (k k' : κ) (f : α → α) :
    (t.modify k f).get? k' = if k' = k then (t.get? k').map f else t.get? k' := by
  obtain ⟨entries, _⟩ := t
  simp only [get?, modify]
  induction entries with
  | nil => simp [find?]
  | cons e es ih =>
    obtain ⟨a, v⟩ := e
    simp only [List.map_cons, List.nodup_cons] at *
    simp only [find?]
    grind

@[simp, grind =] theorem contains_eq (t : Table κ α) (k : κ) :
    t.contains k = (t.get? k).isSome := rfl

/-! ## The number of keys -/

omit [DecidableEq κ] in
@[simp] theorem size_empty : (empty : Table κ α).size = 0 := rfl

@[simp] theorem size_modify (t : Table κ α) (k : κ) (f : α → α) :
    (t.modify k f).size = t.size := by
  simp [size, modify]

theorem without_of_not_mem {k : κ} {entries : List (κ × α)} (h : k ∉ entries.map Prod.fst) :
    without k entries = entries := by
  apply List.filter_eq_self.2
  intro e he
  simp only [ne_eq, decide_eq_true_eq]
  rintro rfl
  exact h (List.mem_map_of_mem he)

theorem length_without {k : κ} {entries : List (κ × α)} (h : (entries.map Prod.fst).Nodup) :
    (without k entries).length + (if (find? k entries).isSome then 1 else 0) = entries.length := by
  induction entries with
  | nil => rfl
  | cons e es ih =>
    obtain ⟨a, v⟩ := e
    simp only [List.map_cons, List.nodup_cons] at h
    by_cases ha : a = k
    · subst ha
      have hw : without a ((a, v) :: es) = es := by
        rw [← without_of_not_mem h.1]
        simp [without]
      simp [hw, find?]
    · have ha' : ¬ k = a := fun h => ha h.symm
      have ih := ih h.2
      unfold without at ih ⊢
      simp only [List.filter_cons, ha, ne_eq, not_false_eq_true, decide_true, if_true, find?, ha',
        if_false, List.length_cons]
      grind

theorem size_erase (t : Table κ α) (k : κ) :
    (t.erase k).size + (if (t.get? k).isSome then 1 else 0) = t.size :=
  length_without t.nodup

theorem size_insert (t : Table κ α) (k : κ) (v : α) :
    (t.insert k v).size + (if (t.get? k).isSome then 1 else 0) = t.size + 1 := by
  have h := length_without (k := k) t.nodup
  simp only [insert, size, List.length_cons, get?]
  grind

end Table

end Lineage

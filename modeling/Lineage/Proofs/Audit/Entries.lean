import Mathlib.Data.List.Nodup
import Lineage.Proofs.Audit.RecordText

/-!
# The entries of members

What a record is read to depends on its members through their entries.  The fields that occur among
the entries are those whose keys occur among the members (`getLsbD_observed`).  Entries set the
fields of an event one by one, those of distinct fields in any order (`foldl_set_perm`).
-/

namespace Lineage.Audit

/-! ## Sets of fields -/

theorem FieldSet.getLsbD_empty (i : Nat) : FieldSet.empty.bits.getLsbD i = false := by
  simp [empty]

/-- The bits of a set are the positions of its fields. -/
theorem FieldSet.getLsbD_ofList (fields : List Field) (i : Nat) :
    (FieldSet.ofList fields).bits.getLsbD i = true ↔ ∃ f ∈ fields, f.index = i := by
  have hfold : ∀ s : FieldSet,
      (fields.foldl (fun s f => s.union (singleton f)) s).bits.getLsbD i = true ↔
      s.bits.getLsbD i = true ∨ ∃ f ∈ fields, f.index = i := by
    induction fields with
    | nil => simp
    | cons f fields ih =>
        intro s
        have hlt : f.index < 32 := Nat.lt_trans f.index_lt (by decide)
        have hunion : (s.union (singleton f)).bits.getLsbD i = true ↔
            s.bits.getLsbD i = true ∨ f.index = i := by
          simp [union, singleton, BitVec.getLsbD_twoPow, hlt]
        rw [List.foldl_cons, ih, hunion]
        simp [or_assoc]
  rw [ofList, hfold, getLsbD_empty]
  simp

theorem FieldSet.ext_getLsbD {s t : FieldSet}
    (h : ∀ i, s.bits.getLsbD i = true ↔ t.bits.getLsbD i = true) : s = t :=
  FieldSet.ext (BitVec.eq_of_getLsbD_eq fun i _ => Bool.eq_iff_iff.mpr (h i))

theorem FieldSet.getLsbD_diff (s t : FieldSet) (i : Nat) :
    (s.diff t).bits.getLsbD i = true ↔
      s.bits.getLsbD i = true ∧ ¬ t.bits.getLsbD i = true := by
  by_cases hi : i < 32
  · simp [diff, hi]
  · simp [diff, BitVec.getLsbD_of_ge _ i (Nat.le_of_not_lt hi)]

theorem FieldSet.getLsbD_required (i : Nat) :
    FieldSet.required.bits.getLsbD i = true ↔
      ∃ f : Field, f.index = i ∧ f.isRequired = true := by
  rw [required, getLsbD_ofList]
  simp only [List.mem_filter, Field.mem_all, true_and]
  exact exists_congr fun f => and_comm

/-! ## Entries and their fields -/

theorem entries_append (ms ms' : List Member) : entries (ms ++ ms') = entries ms ++ entries ms' :=
  List.filterMap_append

theorem Field.key_injective {f g : Field} (h : f.key = g.key) : f = g := by
  have hf := ofKey?_key f
  rw [h, ofKey?_key] at hf
  exact (Option.some.inj hf).symm

/-- The key of a field occurs if and only if an entry has the field. -/
theorem key_mem_iff {f : Field} {ms : List Member} :
    f.key ∈ ms.map Member.key ↔ f ∈ (entries ms).map Entry.field := by
  induction ms with
  | nil => simp [entries]
  | cons m ms ih =>
      cases m with
      | known entry =>
          have hhead : f.key = entry.field.key ↔ f = entry.field :=
            ⟨Field.key_injective, congrArg Field.key⟩
          rw [List.map_cons, List.mem_cons, ih, Member.key, hhead, entries_known, List.map_cons,
            List.mem_cons]
      | other key unknown =>
          rw [List.map_cons, List.mem_cons, ih, Member.key, or_iff_right (unknown f), entries_other]

theorem getLsbD_observed (ms : List Member) (i : Nat) :
    (observed (entries ms)).bits.getLsbD i = true ↔
      ∃ f : Field, f.index = i ∧ f.key ∈ ms.map Member.key := by
  rw [observed, FieldSet.getLsbD_ofList]
  simp only [key_mem_iff]
  exact exists_congr fun f => and_comm

theorem nodup_fields {ms : List Member} (h : (ms.map Member.key).Nodup) :
    ((entries ms).map Entry.field).Nodup := by
  induction ms with
  | nil => exact List.nodup_nil
  | cons m ms ih =>
      rw [List.map_cons, List.nodup_cons] at h
      cases m with
      | known entry =>
          have habsent : entry.field ∉ (entries ms).map Entry.field :=
            fun hmem => h.1 (key_mem_iff.mpr hmem)
          exact List.nodup_cons.mpr ⟨habsent, ih h.2⟩
      | other => exact ih h.2

/-! ## Setting fields -/

theorem Event.ext_get {e e' : Event} (h : ∀ f : Field, e.get f = e'.get f) : e = e' := by
  cases e
  cases e'
  rw [Event.mk.injEq]
  exact ⟨h .event, h .host, h .time, h .pid, h .ppid, h .tid, h .uid, h .exec,
    h .cmdline, h .upath1, h .upath2, h .address, h .fd, h .flags, h .fdpath, h .subjProcUuid,
    h .subjThrUuid, h .argObjUuid1, h .argObjUuid2, h .retObjUuid1, h .retObjUuid2, h .retval⟩

/-- Two entries of distinct fields may be set in either order. -/
theorem Event.set_comm (e : Event) {f g : Field} (v : f.type.Value) (w : g.type.Value)
    (h : f ≠ g) :
    (e.set f v).set g w = (e.set g w).set f v := by
  refine Event.ext_get fun k => ?_
  by_cases hg : k = g
  · subst hg
    rw [get_set_self, get_set_ne _ _ (Ne.symm h), get_set_self]
  · by_cases hf : k = f
    · subst hf
      rw [get_set_ne _ _ hg, get_set_self, get_set_self]
    · rw [get_set_ne _ _ hg, get_set_ne _ _ hf, get_set_ne _ _ hf, get_set_ne _ _ hg]

/-- Entries of other fields leave a field alone. -/
theorem get_foldl_of_not_mem {f : Field} {es : List Entry} (h : f ∉ es.map Entry.field)
    (e : Event) :
    (es.foldl (fun e entry => e.set entry.field entry.value) e).get f = e.get f := by
  induction es generalizing e with
  | nil => rfl
  | cons entry es ih =>
      rw [List.map_cons, List.mem_cons, not_or] at h
      rw [List.foldl_cons, ih h.2, Event.get_set_ne _ _ h.1]

theorem foldl_set_perm {es es' : List Entry} (hperm : es.Perm es') (h : (es.map Entry.field).Nodup)
    (e : Event) :
    es.foldl (fun e entry => e.set entry.field entry.value) e =
      es'.foldl (fun e entry => e.set entry.field entry.value) e := by
  refine hperm.foldl_eq' (fun x hx y hy e => ?_) e
  by_cases hfield : x.field = y.field
  · rw [List.inj_on_of_nodup_map h hx hy hfield]
  · exact e.set_comm x.value y.value hfield

end Lineage.Audit

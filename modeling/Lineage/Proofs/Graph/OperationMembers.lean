import Lineage.Graph.OperationText
import Lineage.Proofs.Json.PrintedList
import Lineage.Proofs.Json.Scalar
import Mathlib.Data.List.Nodup
import Mathlib.Data.List.Perm.Basic

/-!
# The members of operations

Members spell an operation when its own ones are among them, each once, and all others have other
names (`Op.Spelled`).  The order does not matter.  The tag may stand behind the fields, so all other
members are kept until it is known (`exists_folds`).  Then a draft takes the fields among them, in
the order of the text.  What it holds depends only on which fields were read (`Op.draft`), so the
operation is the same for every order (`Op.Spelled.readOpInside_eq`).

A member is kept as a value before it is known that nobody asks for it.  So an integer that is too
great for a double is refused even there (`Op.Spelled.readOpInside_refused`).
-/

namespace Lineage.Graph

open Lineage.Json
open Lineage.Json.Grammar
open Lineage.Audit (readString_ok_iff readColon_ok_iff)

/-! ## Members -/

/-- The fields of an operation with their values. -/
def Op.scalars : Op → List (OpField × Scalar)
  | .createNode id uuid pid cmdline =>
    [(.id, .integer id), (.uuid, .text uuid), (.pid, .integer pid.toNat), (.cmdline, .text cmdline)]
  | .createRel src dst cls => [(.src, .integer src), (.dst, .integer dst), (.cls, .text cls.name)]
  | .updateNode id pid cmdline =>
      [(.id, .integer id), (.pid, .integer pid.toNat), (.cmdline, .text cmdline)]

/-- The members of an operation's object, the tag first. -/
def Op.members (op : Op) : List (String × Scalar) :=
  (tagKey, .text op.tag.name) :: op.scalars.map fun f => (f.1.name, f.2)

/-- The names of an operation's members. -/
def Op.names (op : Op) : List String := op.members.map Prod.fst

/-- The ids that an operation mentions. -/
def Op.ids : Op → List NodeId
  | .createNode id .. => [id]
  | .createRel src dst _ => [src, dst]
  | .updateNode id .. => [id]

/-- Whether the ids of an operation fit 64 bits. -/
def Op.IdsFit (op : Op) : Prop := ∀ id ∈ op.ids, id < UInt64.size

instance (op : Op) : Decidable op.IdsFit :=
  inferInstanceAs (Decidable (∀ id ∈ op.ids, id < UInt64.size))

/-- The text of an object with some members. -/
def printMembers (ms : List (String × Scalar)) : String :=
  printObject (ms.map fun m => (m.1, m.2.print))

/-- Members that spell an operation: its own ones and any others with other names, in any order. -/
def Op.Spelled (op : Op) (ms : List (String × Scalar)) : Prop :=
  ∃ others, (∀ m ∈ others, m.1 ∉ op.names) ∧ ms.Perm (op.members ++ others)

theorem Op.print_eq (op : Op) : op.print = printMembers op.members := by
  cases op <;> rfl

theorem Op.spelled_members (op : Op) : op.Spelled op.members :=
  ⟨[], List.forall_mem_nil _, by rw [List.append_nil]⟩

theorem OpField.name_injective {f f' : OpField} (h : f.name = f'.name) : f = f' := by
  cases f <;> cases f' <;> simp_all [name]

theorem OpField.name_ne_tagKey (f : OpField) : f.name ≠ tagKey := by
  cases f <;> decide

theorem OpTag.ofName?_name (tag : OpTag) : OpTag.ofName? tag.name = some tag := by
  cases tag <;> decide

theorem Op.names_eq (op : Op) : op.names = tagKey :: op.tag.fields.map OpField.name := by
  cases op <;> rfl

/-- The field of a tag with a name. -/
def OpTag.field? (tag : OpTag) (name : String) : Option OpField :=
  tag.fields.find? fun f => f.name == name

/-- The names of a tag's members tell its fields. -/
theorem OpTag.filterMap_field? (tag : OpTag) :
    (tagKey :: tag.fields.map OpField.name).filterMap tag.field? = tag.fields := by
  cases tag <;> decide

theorem OpTag.count_tagKey (tag : OpTag) :
    (tagKey :: tag.fields.map OpField.name).count tagKey = 1 := by
  cases tag <;> decide

theorem OpTag.nodup_fields (tag : OpTag) : tag.fields.Nodup := by
  cases tag <;> decide

/-! ## Drafts -/

/-- The draft of an operation of which some fields were read. -/
def Op.draft (op : Op) (read : List OpField) : OpDraft :=
  let taken {α : Type} (f : OpField) (a : α) : Option α := if f ∈ read then some a else none
  match op with
  | .createNode id uuid pid cmdline =>
    { id := taken .id id,
      uuid := taken .uuid uuid,
      pid := taken .pid pid,
      cmdline := taken .cmdline cmdline }
  | .createRel src dst cls =>
      { src := taken .src src, dst := taken .dst dst, cls := taken .cls cls }
  | .updateNode id pid cmdline =>
    { id := taken .id id, pid := taken .pid pid, cmdline := taken .cmdline cmdline }

theorem Op.draft_nil (op : Op) : op.draft [] = {} := by
  cases op <;> rfl

theorem Op.has_draft {op : Op} {f : OpField} (hf : f ∈ op.tag.fields) (read : List OpField) :
    (op.draft read).has f = decide (f ∈ read) := by
  have htaken : ∀ {α : Type} (g : OpField) (a : α),
      (if g ∈ read then some a else none).isSome = decide (g ∈ read) := by
    intro α g a
    by_cases hg : g ∈ read <;> simp [hg]
  cases op <;> simp only [tag, OpTag.fields, List.mem_cons, List.not_mem_nil, or_false] at hf
  case createNode => rcases hf with rfl | rfl | rfl | rfl <;> exact htaken _ _
  case createRel => rcases hf with rfl | rfl | rfl <;> exact htaken _ _
  case updateNode => rcases hf with rfl | rfl | rfl <;> exact htaken _ _

theorem Op.toOp_draft {op : Op} {read : List OpField} (h : ∀ f ∈ op.tag.fields, f ∈ read) :
    (op.draft read).toOp op.tag = .ok op := by
  cases op <;>
    simp only [tag, OpTag.fields, List.forall_mem_cons, List.not_mem_nil,
      false_implies, implies_true, and_true] at h <;>
    simp [draft, tag, OpDraft.toOp, OpDraft.demand, h, bind, Except.bind, pure, Except.pure]

/-! ## The values of fields -/

theorem nodeIdOf_value {id : NodeId} (h : id < UInt64.size) :
    nodeIdOf (Scalar.integer id).value = .ok id := by
  have hfits : 0 ≤ (id : Int) ∧ (id : Int) < UInt64.size :=
    ⟨Int.natCast_nonneg id, Int.ofNat_lt.mpr h⟩
  rw [nodeIdOf, Scalar.value, Value.asNatural, if_pos hfits, Int.toNat_natCast]

theorem pidOf_value (pid : UInt32) : pidOf (Scalar.integer pid.toNat).value = .ok pid := by
  have hfits : 0 ≤ (pid.toNat : Int) ∧ (pid.toNat : Int) < UInt32.size :=
    ⟨Int.natCast_nonneg _, Int.ofNat_lt.mpr pid.toNat_lt⟩
  rw [pidOf, Scalar.value, Value.asNatural, if_pos hfits, Int.toNat_natCast,
    Except.map, UInt32.ofNat_toNat]

theorem textOf_value (t : String) : textOf (Scalar.text t).value = .ok t := rfl

theorem classOf_value (cls : RelClass) : classOf (Scalar.text cls.name).value = .ok cls := by
  rw [Scalar.value, classOf, classNamed, RelClass.ofName?_name]

/-- A field is added with its value. -/
theorem Op.add_draft {op : Op} (hids : op.IdsFit) {f : OpField} {x : Scalar}
    (h : (f, x) ∈ op.scalars) (read : List OpField) :
    (op.draft read).add f x.value = .ok (op.draft (f :: read)) := by
  cases op <;>
    simp only [scalars, List.mem_cons, List.not_mem_nil, or_false, Prod.mk.injEq] at h <;>
    simp only [IdsFit, ids, List.forall_mem_cons] at hids
  case createNode =>
    rcases h with ⟨rfl, rfl⟩ | ⟨rfl, rfl⟩ | ⟨rfl, rfl⟩ | ⟨rfl, rfl⟩
    · rw [OpDraft.add, nodeIdOf_value hids.1]
      simp [draft, Except.map]
    · rw [OpDraft.add, textOf_value]
      simp [draft, Except.map]
    · rw [OpDraft.add, pidOf_value]
      simp [draft, Except.map]
    · rw [OpDraft.add, textOf_value]
      simp [draft, Except.map]
  case createRel =>
    rcases h with ⟨rfl, rfl⟩ | ⟨rfl, rfl⟩ | ⟨rfl, rfl⟩
    · rw [OpDraft.add, nodeIdOf_value hids.1]
      simp [draft, Except.map]
    · rw [OpDraft.add, nodeIdOf_value hids.2.1]
      simp [draft, Except.map]
    · rw [OpDraft.add, classOf_value]
      simp [draft, Except.map]
  case updateNode =>
    rcases h with ⟨rfl, rfl⟩ | ⟨rfl, rfl⟩ | ⟨rfl, rfl⟩
    · rw [OpDraft.add, nodeIdOf_value hids.1]
      simp [draft, Except.map]
    · rw [OpDraft.add, pidOf_value]
      simp [draft, Except.map]
    · rw [OpDraft.add, textOf_value]
      simp [draft, Except.map]

/-- The value of a field is read wherever it stands. -/
theorem Op.readAs_value {op : Op} (hids : op.IdsFit) {f : OpField} {x : Scalar}
    (h : (f, x) ∈ op.scalars) : x.ReadAs x.value := by
  have hid : ∀ id < UInt64.size,
      (Scalar.integer (id : Nat)).ReadAs (Scalar.integer id).value := by
    intro id hlt
    exact Scalar.readAs_integer (by omega) (Int.ofNat_le.mpr (Nat.le_sub_one_of_lt hlt))
  have hpid : ∀ pid : UInt32, (Scalar.integer pid.toNat).ReadAs
      (Scalar.integer pid.toNat).value :=
    fun pid => hid _ (Nat.lt_trans pid.toNat_lt (by decide))
  cases op <;>
    simp only [scalars, List.mem_cons, List.not_mem_nil, or_false, Prod.mk.injEq] at h <;>
    simp only [IdsFit, ids, List.forall_mem_cons] at hids
  case createNode =>
    rcases h with ⟨rfl, rfl⟩ | ⟨rfl, rfl⟩ | ⟨rfl, rfl⟩ | ⟨rfl, rfl⟩
    · exact hid _ hids.1
    · exact Scalar.readAs_text _
    · exact hpid _
    · exact Scalar.readAs_text _
  case createRel =>
    rcases h with ⟨rfl, rfl⟩ | ⟨rfl, rfl⟩ | ⟨rfl, rfl⟩
    · exact hid _ hids.1
    · exact hid _ hids.2.1
    · exact Scalar.readAs_text _
  case updateNode =>
    rcases h with ⟨rfl, rfl⟩ | ⟨rfl, rfl⟩ | ⟨rfl, rfl⟩
    · exact hid _ hids.1
    · exact hpid _
    · exact Scalar.readAs_text _

/-! ## Members that were read -/

/-- A member that was read has the right value, if it is one of the operation's fields. -/
def Op.Agrees (op : Op) (v : String × Value) : Prop :=
  ∀ f ∈ op.tag.fields, f.name = v.1 → ∃ x, (f, x) ∈ op.scalars ∧ v.2 = x.value

theorem OpTag.field?_eq_some {tag : OpTag} {name : String} {f : OpField}
    (h : tag.field? name = some f) :
    f ∈ tag.fields ∧ f.name = name :=
  have hname := List.find?_some (p := fun f : OpField => f.name == name) h
  ⟨List.mem_of_find?_eq_some h, beq_iff_eq.mp hname⟩

/-- The members of an operation's fields are added, each with its value, and all others are passed
over. -/
theorem Op.addMembers_draft {op : Op} (hids : op.IdsFit) {vs : List (String × Value)}
    (read : List OpField)
    (hvalues : ∀ v ∈ vs, op.Agrees v)
    (hnodup : ((vs.map Prod.fst).filterMap op.tag.field? ++ read).Nodup) :
    ∃ read', OpDraft.addMembers op.tag (op.draft read) vs = .ok (op.draft read') ∧
      ∀ f ∈ (vs.map Prod.fst).filterMap op.tag.field? ++ read, f ∈ read' := by
  induction vs generalizing read with
  | nil => exact ⟨read, rfl, fun f hf => hf⟩
  | cons m vs ih =>
      obtain ⟨name, v⟩ := m
      rw [List.forall_mem_cons] at hvalues
      cases hfield : op.tag.field? name with
      | none =>
          rw [List.map_cons, List.filterMap_cons_none hfield] at hnodup ⊢
          rw [OpTag.field?] at hfield
          rw [OpDraft.addMembers, hfield]
          exact ih read hvalues.2 hnodup
      | some f =>
          obtain ⟨hmem, hname⟩ := OpTag.field?_eq_some hfield
          obtain ⟨x, hx, hv⟩ := hvalues.1 f hmem hname
          rw [List.map_cons, List.filterMap_cons_some hfield] at hnodup ⊢
          have hnew : f ∉ read :=
            fun hf => (List.nodup_cons.mp hnodup).1 (List.mem_append_right _ hf)
          obtain ⟨read', hread, hsub⟩ := ih (f :: read) hvalues.2 (List.nodup_middle.mpr hnodup)
          refine ⟨read', ?_, fun g hg => hsub g ?_⟩
          · rw [OpTag.field?] at hfield
            dsimp only at hv
            rw [OpDraft.addMembers, hfield]
            dsimp only
            rw [has_draft hmem, decide_eq_false hnew, if_neg Bool.false_ne_true,
              hv, add_draft hids hx]
            exact hread
          · exact List.perm_middle.mem_iff.mpr hg

/-- Members with the values of an operation's fields make this operation. -/
theorem Op.opOfMembers_eq {op : Op} (hids : op.IdsFit) {vs : List (String × Value)}
    (hvalues : ∀ v ∈ vs, op.Agrees v)
    (hfields : ((vs.map Prod.fst).filterMap op.tag.field?).Perm op.tag.fields) :
    opOfMembers op.tag vs = .ok op := by
  obtain ⟨read, hread, hall⟩ := addMembers_draft hids [] hvalues
    (by rw [List.append_nil]; exact hfields.nodup_iff.mpr op.tag.nodup_fields)
  rw [draft_nil] at hread
  rw [opOfMembers, hread]
  exact toOp_draft fun f hf => hall f (List.mem_append_left _ (hfields.mem_iff.mpr hf))

/-- The tag is no field. -/
theorem OpTag.filterMap_filter (tag : OpTag) (names : List String) :
    (names.filter (· ≠ tagKey)).filterMap tag.field? = names.filterMap tag.field? := by
  rw [List.filterMap_filter]
  refine List.filterMap_congr fun name _ => ?_
  split
  · rfl
  · rename_i hname
    obtain rfl : name = tagKey := by simpa using hname
    cases tag <;> decide

/-! ## Reading the members -/

theorem readTag_print (tag : OpTag) (r : Bytes) :
    readTag (utf8 (printString tag.name) ++ r) = .ok (tag, r) := by
  have hread : readString "variant identifier" (utf8 (printString tag.name) ++ r) =
      .ok (tag.name, r) :=
    readString_ok_iff.mpr ⟨_, .done _, text_printString tag.name r⟩
  rw [readTag, hread]
  dsimp only
  rw [OpTag.ofName?_name]

theorem taggedStep_run (outer : Nat) (st : TaggedMembers) (key : String) (s : Bytes) :
    (taggedStep outer).run st key s = readTaggedMember outer st key s := rfl

/-- Members that can be read are collected, the tag apart from the others. -/
theorem exists_folds {tag : OpTag} (outer : Nat) (st : TaggedMembers) {ms : List (String × Scalar)}
    (hreadable : ∀ m ∈ ms, m.2.Readable)
    (htag : ∀ m ∈ ms, m.1 = tagKey → m.2 = .text tag.name)
    (hone : st.tag.toList.length + (ms.map Prod.fst).count tagKey ≤ 1) :
    ∃ vs : List (String × Value), vs.map Prod.fst = (ms.map Prod.fst).filter (· ≠ tagKey) ∧
      (∀ v ∈ vs, ∃ x, (v.1, x) ∈ ms ∧ x.ReadAs v.2) ∧
      Folds (taggedStep outer) st (ms.map fun m => (m.1, m.2.print))
        ⟨if tagKey ∈ ms.map Prod.fst then some tag else st.tag, vs.reverse ++ st.others⟩ := by
  induction ms generalizing st with
  | nil => exact ⟨[], rfl, List.forall_mem_nil _, by simpa using Folds.nil st⟩
  | cons m ms ih =>
      obtain ⟨key, x⟩ := m
      rw [List.forall_mem_cons] at hreadable htag
      have hcolon : ∀ r, readColon (colon :: (utf8 x.print ++ r)) = .ok (utf8 x.print ++ r) :=
        fun r => readColon_ok_iff.mpr (.done _)
      by_cases hkey : key = tagKey
      · subst hkey
        obtain rfl : x = .text tag.name := htag.1 rfl
        rw [List.map_cons, List.count_cons_self] at hone
        have hnone : st.tag = none := by
          cases hst : st.tag with
          | none => rfl
          | some _ => simp [hst] at hone
        obtain ⟨vs, hkeys, hvs, hfolds⟩ := ih { st with tag := some tag } hreadable.2 htag.2
          (by simp only [Option.toList_some, List.length_singleton]; omega)
        refine ⟨vs, by simpa using hkeys, fun v hv => ?_, ?_⟩
        · obtain ⟨x, hx, hread⟩ := hvs v hv
          exact ⟨x, List.mem_cons_of_mem _ hx, hread⟩
        · rw [ite_self] at hfolds
          rw [List.map_cons, List.map_cons, if_pos (List.mem_cons_self ..)]
          refine .cons (fun r _ => ?_) hfolds
          rw [taggedStep_run, readTaggedMember, if_pos rfl, hnone]
          dsimp only
          rw [hcolon]
          dsimp only
          rw [Scalar.print, readTag_print]
      · obtain ⟨v, hv⟩ := Scalar.exists_readAs hreadable.1
        have hne : tagKey ≠ key := fun h => hkey h.symm
        have hmem : tagKey ∈ key :: ms.map Prod.fst ↔ tagKey ∈ ms.map Prod.fst := by
          rw [List.mem_cons]
          exact or_iff_right hne
        rw [List.map_cons, List.count_cons_of_ne hkey] at hone
        obtain ⟨vs, hkeys, hvs, hfolds⟩ :=
          ih { st with others := (key, v) :: st.others } hreadable.2 htag.2 hone
        refine ⟨(key, v) :: vs, ?_, List.forall_mem_cons.mpr ⟨?_, fun w hw => ?_⟩, ?_⟩
        · rw [List.map_cons, List.map_cons, List.filter_cons_of_pos (by simpa using hkey), hkeys]
        · exact ⟨x, List.mem_cons_self .., hv⟩
        · obtain ⟨y, hy, hread⟩ := hvs w hw
          exact ⟨y, List.mem_cons_of_mem _ hy, hread⟩
        · rw [List.map_cons, List.map_cons, List.reverse_cons, List.append_assoc,
            List.singleton_append]
          simp only [hmem]
          refine .cons (fun r hr => ?_) hfolds
          rw [taggedStep_run, readTaggedMember, if_neg hkey, hcolon]
          dsimp only
          rw [hv outer r hr]

/-! ## Spellings -/

theorem Op.mem_names {op : Op} {f : OpField} (hf : f ∈ op.tag.fields) : f.name ∈ op.names := by
  rw [names_eq]
  exact List.mem_cons_of_mem _ (List.mem_map_of_mem hf)

theorem Op.tagKey_mem_names (op : Op) : tagKey ∈ op.names := List.mem_cons_self ..

/-- Only the tag stands behind its key. -/
theorem Op.Spelled.tag_eq {op : Op} {ms : List (String × Scalar)} (h : op.Spelled ms) :
    ∀ m ∈ ms, m.1 = tagKey → m.2 = .text op.tag.name := by
  obtain ⟨others, hothers, hperm⟩ := h
  intro m hm hkey
  rw [hperm.mem_iff, List.mem_append, members, List.mem_cons] at hm
  rcases hm with (rfl | hm) | hm
  · rfl
  · obtain ⟨f, _, rfl⟩ := List.mem_map.mp hm
    exact absurd hkey f.1.name_ne_tagKey
  · exact absurd (hkey ▸ op.tagKey_mem_names) (hothers m hm)

theorem Op.Spelled.count_tagKey {op : Op} {ms : List (String × Scalar)} (h : op.Spelled ms) :
    (ms.map Prod.fst).count tagKey = 1 := by
  obtain ⟨others, hothers, hperm⟩ := h
  have hnone : (others.map Prod.fst).count tagKey = 0 := by
    refine List.count_eq_zero.mpr fun hmem => ?_
    obtain ⟨m, hm, hkey⟩ := List.mem_map.mp hmem
    exact hothers m hm (hkey ▸ op.tagKey_mem_names)
  rw [(hperm.map Prod.fst).count_eq, List.map_append, List.count_append, hnone, ← names, names_eq,
    OpTag.count_tagKey]

/-- A member with the name of a field has the field's value. -/
theorem Op.Spelled.value_eq {op : Op} {ms : List (String × Scalar)} (h : op.Spelled ms)
    {f : OpField} {x : Scalar} (hf : f ∈ op.tag.fields) (hm : (f.name, x) ∈ ms) :
    (f, x) ∈ op.scalars := by
  obtain ⟨others, hothers, hperm⟩ := h
  rw [hperm.mem_iff, List.mem_append, members, List.mem_cons] at hm
  rcases hm with (htag | hm) | hm
  · exact absurd (congrArg Prod.fst htag) f.name_ne_tagKey
  · obtain ⟨g, hg, heq⟩ := List.mem_map.mp hm
    rw [Prod.mk.injEq] at heq
    rw [← OpField.name_injective heq.1, ← heq.2]
    exact hg
  · exact absurd (mem_names hf) (hothers _ hm)

/-- All fields are there, once each. -/
theorem Op.Spelled.fields_perm {op : Op} {ms : List (String × Scalar)} (h : op.Spelled ms) :
    ((ms.map Prod.fst).filterMap op.tag.field?).Perm op.tag.fields := by
  obtain ⟨others, hothers, hperm⟩ := h
  have hnone : (others.map Prod.fst).filterMap op.tag.field? = [] := by
    rw [List.filterMap_eq_nil_iff]
    intro name hname
    obtain ⟨m, hm, rfl⟩ := List.mem_map.mp hname
    cases hfield : op.tag.field? m.1 with
    | none => rfl
    | some f =>
        obtain ⟨hf, heq⟩ := OpTag.field?_eq_some hfield
        exact absurd (heq ▸ mem_names hf) (hothers m hm)
  have hnames := (hperm.map Prod.fst).filterMap op.tag.field?
  rw [List.map_append, List.filterMap_append, hnone, List.append_nil, ← names, names_eq,
    OpTag.filterMap_field?] at hnames
  exact hnames

/-! ## Reading an operation -/

theorem readOpInside_object (outer : Nat) (ms : List (String × Scalar)) (r : Bytes) :
    readOpInside outer (utf8 (printMembers ms) ++ r) =
      match foldMembers (taggedStep (outer + 1)) {} true
        (membersText true (ms.map fun m => (m.1, m.2.print)) r) with
      | .error f => .error f
      | .ok (st, r) =>
        match st.tag with
        | none => .error (.here (.mismatch (.missingField tagKey)) r)
        | some tag => orMismatch r (opOfMembers tag st.others.reverse) := by
  have hskip :=
    skipBlanks_cons (b := openBrace) rfl (membersText true (ms.map fun m => (m.1, m.2.print)) r)
  rw [printMembers, utf8_printObject, readOpInside, hskip]
  exact if_pos rfl

/-- What spells an operation is read as it, if all members can be read. -/
theorem Op.Spelled.readOpInside_eq {op : Op} (hids : op.IdsFit) {ms : List (String × Scalar)}
    (h : op.Spelled ms) (hreadable : ∀ m ∈ ms, m.2.Readable) (outer : Nat) (r : Bytes) :
    readOpInside outer (utf8 (printMembers ms) ++ r) = .ok (op, r) := by
  obtain ⟨vs, hkeys, hvs, hfolds⟩ :=
    exists_folds (outer + 1) {} hreadable h.tag_eq (by simp [h.count_tagKey])
  have hmem : tagKey ∈ ms.map Prod.fst := List.count_pos_iff.mp (by rw [h.count_tagKey]; decide)
  rw [if_pos hmem] at hfolds
  have hvalues : ∀ v ∈ vs, op.Agrees v := by
    intro v hv f hf hname
    obtain ⟨x, hx, hread⟩ := hvs v hv
    have hfield := h.value_eq hf (hname ▸ hx)
    exact ⟨x, hfield, hread.unique (readAs_value hids hfield)⟩
  have hfields : ((vs.map Prod.fst).filterMap op.tag.field?).Perm op.tag.fields := by
    rw [hkeys, op.tag.filterMap_filter]
    exact h.fields_perm
  rw [readOpInside_object, hfolds.foldMembers_ok]
  dsimp only
  rw [List.append_nil, List.reverse_reverse, opOfMembers_eq hids hvalues hfields]
  rfl

/-- An integer that is too great is refused, wherever it stands among the members. -/
theorem Op.Spelled.readOpInside_refused {op : Op} {ms : List (String × Scalar)} (h : op.Spelled ms)
    (hbad : ∃ m ∈ ms, ¬ m.2.Readable) (outer : Nat) (r : Bytes) :
    ∃ f : Fault, readOpInside outer (utf8 (printMembers ms) ++ r) = .error f ∧
      f.cause = .numberOutOfRange := by
  -- The members in front of the first such integer are read.
  obtain ⟨⟨key, x⟩, hfirst⟩ : ∃ m, ms.find? (fun m => ¬ m.2.Readable) = some m := by
    rw [← Option.isSome_iff_exists, List.find?_isSome]
    simpa using hbad
  rw [List.find?_eq_some_iff_append] at hfirst
  obtain ⟨hnot, front, back, rfl, hfront⟩ := hfirst
  have hx : ¬ x.Readable := by simpa using hnot
  have hkey : key ≠ tagKey := by
    rintro rfl
    have htext := h.tag_eq _ (List.mem_append_right _ (List.mem_cons_self ..)) rfl
    dsimp only at htext
    rw [htext] at hx
    exact hx trivial
  have hreadable : ∀ m ∈ front, m.2.Readable := by simpa using hfront
  have htag : ∀ m ∈ front, m.1 = tagKey → m.2 = .text op.tag.name :=
    fun m hm => h.tag_eq m (List.mem_append_left _ hm)
  have hcount := h.count_tagKey
  rw [List.map_append, List.count_append] at hcount
  obtain ⟨vs, _, _, hfolds⟩ := exists_folds (outer + 1) {} hreadable htag
    (by simp only [Option.toList_none, List.length_nil]; omega)
  have hcolon : ∀ r, readColon (colon :: (utf8 x.print ++ r)) = .ok (utf8 x.print ++ r) :=
    fun r => readColon_ok_iff.mpr (.done _)
  have hends := endsNumber_membersText (back.map fun m => (m.1, m.2.print)) r
  refine ⟨⟨.numberOutOfRange,
    (membersText false (back.map fun m => (m.1, m.2.print)) r).length, 0⟩, ?_, rfl⟩
  rw [readOpInside_object, List.map_append, List.map_cons, hfolds.foldMembers_error]
  rw [taggedStep_run, readTaggedMember, if_neg hkey, hcolon]
  dsimp only
  rw [Scalar.readValue_refused hx _ hends]

end Lineage.Graph

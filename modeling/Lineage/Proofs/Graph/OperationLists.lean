import Lineage.Proofs.Graph.OperationMembers
import Mathlib.Data.List.Forall2

/-!
# Lists of operations survive their text

`operations_survive_text` says that a list of operations is read back from its text, in order, and
that it is also read from any text in which the members of each operation are in another order or
stand among others.
-/

namespace Lineage.Graph

open Lineage.Json
open Lineage.Json.Grammar

/-! ## Elements -/

/-- The operation at the front is read, and the others behind it. -/
theorem readOpsFrom_cons (done : List Op) (ms : List (String × Scalar)) (ts : List String)
    (r : Bytes) :
    readOpsFrom done (elementsText done.isEmpty (printMembers ms :: ts) r) =
      match readOpInside 1 (utf8 (printMembers ms) ++ elementsText false ts r) with
      | .error f => .error f
      | .ok (op, r) => readOpsFrom (op :: done) r := by
  have htext : utf8 (printMembers ms) ++ elementsText false ts r =
      openBrace :: membersText true (ms.map fun m => (m.1, m.2.print))
        (elementsText false ts r) := by
    rw [printMembers, utf8_printObject]
  have hmore := moreElements_cons done.isEmpty htext rfl (by decide)
  rw [readOpsFrom, hmore]
  dsimp only
  split <;> rename_i h <;> rw [h]

theorem readOpsFrom_nil (done : List Op) (r : Bytes) :
    readOpsFrom done (elementsText done.isEmpty [] r) = .ok (done.reverse, r) := by
  rw [readOpsFrom, moreElements_nil]
  dsimp only
  rw [endElements_close]

section

variable {ops : List Op} {spellings : List (List (String × Scalar))}

/-- Spellings of operations are read as these operations, if all members can be read. -/
theorem readOpsFrom_eq (h : List.Forall₂ Op.Spelled ops spellings)
    (hids : ∀ op ∈ ops, op.IdsFit)
    (hreadable : ∀ ms ∈ spellings, ∀ m ∈ ms, m.2.Readable) (done : List Op) (r : Bytes) :
    readOpsFrom done (elementsText done.isEmpty (spellings.map printMembers) r) =
      .ok (done.reverse ++ ops, r) := by
  induction h generalizing done with
  | nil => rw [List.map_nil, readOpsFrom_nil, List.append_nil]
  | @cons op ms ops spellings hop _ ih =>
      rw [List.forall_mem_cons] at hids hreadable
      have htail := ih hids.2 hreadable.2 (op :: done)
      rw [List.isEmpty_cons] at htail
      rw [List.map_cons, readOpsFrom_cons, hop.readOpInside_eq hids.1 hreadable.1]
      dsimp only
      rw [htail, List.reverse_cons, List.append_assoc, List.singleton_append]

theorem readOpsFrom_refused (h : List.Forall₂ Op.Spelled ops spellings)
    (hids : ∀ op ∈ ops, op.IdsFit)
    (hbad : ∃ ms ∈ spellings, ∃ m ∈ ms, ¬ m.2.Readable) (done : List Op) (r : Bytes) :
    ∃ f : Fault,
      readOpsFrom done (elementsText done.isEmpty (spellings.map printMembers) r) = .error f ∧
      f.cause = .numberOutOfRange := by
  induction h generalizing done with
  | nil =>
      obtain ⟨ms, hms, _⟩ := hbad
      cases hms
  | @cons op ms ops spellings hop _ ih =>
      rw [List.forall_mem_cons] at hids
      rw [List.map_cons, readOpsFrom_cons]
      by_cases hms : ∃ m ∈ ms, ¬ m.2.Readable
      · obtain ⟨f, hread, hcause⟩ :=
          hop.readOpInside_refused hms 1 (elementsText false (spellings.map printMembers) r)
        exact ⟨f, by rw [hread], hcause⟩
      · rw [List.exists_mem_cons_iff, or_iff_right hms] at hbad
        obtain ⟨f, hread, hcause⟩ := ih hids.2 hbad (op :: done)
        refine ⟨f, ?_, hcause⟩
        rw [hop.readOpInside_eq hids.1 (by simpa using hms)]
        exact hread

/-! ## Whole texts -/

theorem readOps_printArray (ts : List String) :
    readOps (utf8 (printArray ts)) = readOpsFrom [] (elementsText true ts []) := by
  have htext := utf8_printArray ts []
  rw [List.append_nil] at htext
  rw [htext, readOps, skipBlanks_cons (b := openBracket) rfl]
  dsimp only
  rw [if_pos rfl]

/-- A text of spellings is read to its end, if all members can be read. -/
theorem decode_readOps (h : List.Forall₂ Op.Spelled ops spellings)
    (hids : ∀ op ∈ ops, op.IdsFit)
    (hreadable : ∀ ms ∈ spellings, ∀ m ∈ ms, m.2.Readable) :
    decode readOps (utf8 (printArray (spellings.map printMembers))) = .ok ops := by
  have hread := readOpsFrom_eq h hids hreadable [] []
  rw [List.isEmpty_nil, List.reverse_nil, List.nil_append] at hread
  rw [decode, readOps_printArray, hread]
  rfl

/-- An integer that is too great is refused, wherever it stands in a list. -/
theorem decode_readOps_refused (h : List.Forall₂ Op.Spelled ops spellings)
    (hids : ∀ op ∈ ops, op.IdsFit)
    (hbad : ∃ ms ∈ spellings, ∃ m ∈ ms, ¬ m.2.Readable) :
    ∃ f : Fault, decode readOps (utf8 (printArray (spellings.map printMembers))) = .error f ∧
      f.cause = .numberOutOfRange := by
  obtain ⟨f, hread, hcause⟩ := readOpsFrom_refused h hids hbad [] []
  rw [List.isEmpty_nil] at hread
  exact ⟨f, by rw [decode, readOps_printArray, hread], hcause⟩

end

theorem Op.printList_eq (ops : List Op) :
    Op.printList ops = printArray ((ops.map members).map printMembers) := by
  rw [printList, List.map_map]
  exact congrArg printArray (List.map_congr_left fun op _ => op.print_eq)

/-- The members that are written can be read. -/
theorem Op.readable_members {op : Op} (hids : op.IdsFit) :
    ∀ m ∈ op.members, m.2.Readable := by
  rw [members, List.forall_mem_cons]
  refine ⟨trivial, fun m hm => ?_⟩
  obtain ⟨f, hf, rfl⟩ := List.mem_map.mp hm
  exact (readAs_value hids hf).readable

/-- Lists of operations survive their text.  The same list is read where other members are added to
its operations and the members stand in another order, unless an integer among them is too great for
a double. -/
theorem operations_survive_text {ops : List Op} (hids : ∀ op ∈ ops, op.IdsFit) :
    decode readOps (utf8 (Op.printList ops)) = .ok ops ∧
      ∀ spellings, List.Forall₂ Op.Spelled ops spellings →
        (decode readOps (utf8 (printArray (spellings.map printMembers))) = .ok ops ↔
          ∀ ms ∈ spellings, ∀ m ∈ ms, m.2.Readable) := by
  refine ⟨?_, fun spellings h => ⟨fun hread => ?_, decode_readOps h hids⟩⟩
  · have hown : List.Forall₂ Op.Spelled ops (ops.map Op.members) :=
      List.forall₂_map_right_iff.mpr (List.forall₂_same.mpr fun op _ => op.spelled_members)
    rw [Op.printList_eq]
    refine decode_readOps hown hids fun ms hms => ?_
    obtain ⟨op, hop, rfl⟩ := List.mem_map.mp hms
    exact Op.readable_members (hids op hop)
  · by_contra hnot
    obtain ⟨f, hrefused, _⟩ := decode_readOps_refused h hids (by simpa using hnot)
    rw [hrefused] at hread
    cases hread

/-- A node with the greatest id and number that there are, and a relation. -/
def nodeAndRelation : List Op :=
  [.createNode 0xffffffffffffffff "é\"\n" 0xffffffff "", .createRel 1 2 .child]

/-- Their members in another order, with some that have nothing to do with them. -/
def nodeAndRelationShuffled : List (List (String × Scalar)) :=
  [[("cmdline", .text ""), ("src", .integer (-7)), ("uuid", .text "é\"\n"), ("src", .text "op"),
      ("id", .integer 0xffffffffffffffff), ("pid", .integer 0xffffffff),
      ("op", .text "create_node")],
    [("class", .text "child"), ("dst", .integer 2), ("op", .text "create_rel"), ("src", .integer 1),
      ("", .integer (10 ^ 250))]]

theorem operations_survive_text_shuffled :
    (∀ op ∈ nodeAndRelation, op.IdsFit) ∧
      List.Forall₂ Op.Spelled nodeAndRelation nodeAndRelationShuffled ∧
      decode readOps (utf8 (Op.printList nodeAndRelation)) = .ok nodeAndRelation ∧
      decode readOps (utf8 (printArray (nodeAndRelationShuffled.map printMembers))) =
        .ok nodeAndRelation := by
  have hids : ∀ op ∈ nodeAndRelation, op.IdsFit := by decide
  have hspelled : List.Forall₂ Op.Spelled nodeAndRelation nodeAndRelationShuffled :=
    .cons ⟨[("src", .integer (-7)), ("src", .text "op")], by decide, by decide⟩
      (.cons ⟨[("", .integer (10 ^ 250))], by decide, by decide⟩ .nil)
  have hreadable : ∀ ms ∈ nodeAndRelationShuffled, ∀ m ∈ ms, m.2.Readable := by
    decide +kernel
  obtain ⟨hlist, hall⟩ := operations_survive_text hids
  exact ⟨hids, hspelled, hlist, (hall _ hspelled).mpr hreadable⟩

/-- A relation with a member that has nothing to do with it. -/
def relationWithLargeInteger : List (String × Scalar) :=
  [("op", .text "create_rel"), ("src", .integer 1), ("dst", .integer 2), ("class", .text "next"),
    ("x", .integer (10 ^ 400))]

/-- Not every member with another name can be added. -/
theorem large_integer_refused :
    (Op.createRel 1 2 .next).Spelled relationWithLargeInteger ∧
      decode readOps (utf8 (printArray [printMembers relationWithLargeInteger])) ≠
        .ok [.createRel 1 2 .next] := by
  have hspelled : (Op.createRel 1 2 .next).Spelled relationWithLargeInteger :=
    ⟨[("x", .integer (10 ^ 400))], by decide, .refl _⟩
  have hlarge : ¬ (Scalar.integer (10 ^ 400)).Readable := by decide +kernel
  have hids : ∀ op ∈ [Op.createRel 1 2 .next], op.IdsFit := by decide
  have hmem : ("x", .integer (10 ^ 400)) ∈ relationWithLargeInteger :=
    .tail _ (.tail _ (.tail _ (.tail _ (.head _))))
  obtain ⟨f, hread, _⟩ := decode_readOps_refused (.cons hspelled .nil) hids
    ⟨_, List.mem_cons_self .., _, hmem, hlarge⟩
  rw [List.map_singleton] at hread
  refine ⟨hspelled, ?_⟩
  rw [hread]
  exact fun h => by cases h

end Lineage.Graph

import Lineage.Audit.Field

/-!
# Sets of fields

A set of fields is a mask of 32 bits.  The bit of a field is its position, and the ten bits above
the known fields may be set too.  `FieldSet.required` holds the nine fields that every record needs.
-/

namespace Lineage.Audit

/-- A set of fields as a mask. -/
@[ext] structure FieldSet where
  /-- The mask. -/
  bits : BitVec 32
  deriving DecidableEq, Repr

namespace FieldSet

/-- The set without a field. -/
def empty : FieldSet := ⟨0⟩

/-- The set of one field. -/
def singleton (f : Field) : FieldSet := ⟨BitVec.twoPow 32 f.index⟩

/-- Whether a field is in a set. -/
def has (s : FieldSet) (f : Field) : Bool := s.bits.getLsbD f.index

/-- The bits of either set. -/
def union (s t : FieldSet) : FieldSet := ⟨s.bits ||| t.bits⟩

/-- The bits of both sets. -/
def inter (s t : FieldSet) : FieldSet := ⟨s.bits &&& t.bits⟩

/-- The bits of one set that are not in another. -/
def diff (s t : FieldSet) : FieldSet := ⟨s.bits &&& ~~~t.bits⟩

/-- Whether one set holds all bits of another. -/
def contains (s t : FieldSet) : Bool := s.inter t = t

/-- Whether two sets have a bit in common. -/
def intersects (s t : FieldSet) : Bool := s.inter t ≠ empty

/-- The set of some fields. -/
def ofList (fields : List Field) : FieldSet :=
  fields.foldl (fun s f => s.union (singleton f)) empty

/-- The known fields. -/
def known : FieldSet := ofList Field.all

/-- The fields that every record needs. -/
def required : FieldSet := ofList (Field.all.filter Field.isRequired)

/-- The fields of a set in the order of their positions. -/
def toList (s : FieldSet) : List Field := Field.all.filter s.has

/-- The keys of the fields of a set. -/
def keys (s : FieldSet) : List String := s.toList.map Field.key

/-- The keys of the fields of a set, separated by commas. -/
def keyList (s : FieldSet) : String := ", ".intercalate s.keys

theorem required_bits : required.bits = 0x21807d := by decide

theorem known_bits : known.bits = 0x3fffff := by decide

theorem has_union (s t : FieldSet) (f : Field) : (s.union t).has f = (s.has f || t.has f) := by
  simp [has, union]

theorem has_diff (s t : FieldSet) (f : Field) : (s.diff t).has f = (s.has f && !t.has f) := by
  have h : f.index < 32 := Nat.lt_trans f.index_lt (by decide)
  simp [has, diff, h]

theorem has_singleton (f g : Field) : (singleton f).has g = decide (g = f) := by
  cases f <;> cases g <;> rfl

end FieldSet

end Lineage.Audit

import Lineage.Graph.Operation
import Lineage.Json.Printer
import Lineage.Json.Value

/-!
# The JSON form of operations

An operation is written as an object.  Its first member is the tag `op`, and the others are the
operation's own fields in a fixed order (`Op.print`).

Reading is more liberal (`readOp`).  The tag may stand anywhere and members with other names are
ignored, so all members are kept until the tag is known.  An array of the tag and the fields in
order is read too.  Fields are checked in the order of the text, and only then a missing one is
noticed, in the order in which the operation has them.

A list of operations is an array (`Op.printList`, `readOps`).
-/

namespace Lineage.Graph

open Lineage.Json

/-! ## Tags and fields -/

/-- The tags of the operations. -/
inductive OpTag where
  | createNode
  | createRel
  | updateNode
  deriving DecidableEq, Repr

/-- The fields of the operations. -/
inductive OpField where
  | id
  | uuid
  | pid
  | cmdline
  | src
  | dst
  | cls
  deriving DecidableEq, Repr

namespace OpTag

/-- All tags. -/
def all : List OpTag := [.createNode, .createRel, .updateNode]

/-- The name of a tag. -/
def name : OpTag → String
  | .createNode => "create_node"
  | .createRel => "create_rel"
  | .updateNode => "update_node"

/-- The tag with a name. -/
def ofName? (name : String) : Option OpTag := all.find? fun tag => tag.name == name

/-- The fields of an operation, in order. -/
def fields : OpTag → List OpField
  | .createNode => [.id, .uuid, .pid, .cmdline]
  | .createRel => [.src, .dst, .cls]
  | .updateNode => [.id, .pid, .cmdline]

/-- What messages call an operation that is written as an array. -/
def expectation (tag : OpTag) : String :=
  let variant := match tag with
    | .createNode => "CreateNode"
    | .createRel => "CreateRel"
    | .updateNode => "UpdateNode"
  "struct variant GraphOp::" ++ variant ++ " with " ++ toString tag.fields.length ++ " elements"

end OpTag

namespace OpField

/-- The name of a field. -/
def name : OpField → String
  | .id => "id"
  | .uuid => "uuid"
  | .pid => "pid"
  | .cmdline => "cmdline"
  | .src => "src"
  | .dst => "dst"
  | .cls => "class"

end OpField

/-! ## Writing -/

/-- The tag of an operation. -/
def Op.tag : Op → OpTag
  | .createNode .. => .createNode
  | .createRel .. => .createRel
  | .updateNode .. => .updateNode

/-- The fields of an operation with the texts of their values. -/
def Op.fieldTexts : Op → List (OpField × String)
  | .createNode id uuid pid cmdline =>
    [(.id, toString id), (.uuid, printString uuid), (.pid, toString pid.toNat),
      (.cmdline, printString cmdline)]
  | .createRel src dst cls =>
    [(.src, toString src), (.dst, toString dst), (.cls, printString cls.name)]
  | .updateNode id pid cmdline =>
    [(.id, toString id), (.pid, toString pid.toNat), (.cmdline, printString cmdline)]

/-- The JSON form of an operation. -/
def Op.print (op : Op) : String :=
  printObject (("op", printString op.tag.name) :: op.fieldTexts.map fun f => (f.1.name, f.2))

/-- The JSON form of a list of operations. -/
def Op.printList (ops : List Op) : String := printArray (ops.map Op.print)

/-! ## Fields that were read -/

/-- The fields that were read so far. -/
structure OpDraft where
  /-- The id of the node. -/
  id : Option NodeId := none
  /-- The identity of the process. -/
  uuid : Option Uuid := none
  /-- The process number. -/
  pid : Option UInt32 := none
  /-- The command line. -/
  cmdline : Option String := none
  /-- The node a relation starts from. -/
  src : Option NodeId := none
  /-- The node a relation leads to. -/
  dst : Option NodeId := none
  /-- The class of a relation. -/
  cls : Option RelClass := none

/-- The id of a node. -/
def nodeIdOf (v : Value) : Except Mismatch NodeId := v.asNatural "u64" UInt64.size

/-- A process number. -/
def pidOf (v : Value) : Except Mismatch UInt32 := (v.asNatural "u32" UInt32.size).map UInt32.ofNat

/-- A text. -/
def textOf (v : Value) : Except Mismatch String := v.asText "a string"

/-- The class with a name. -/
def classNamed (name : String) : Except Mismatch RelClass :=
  match RelClass.ofName? name with
  | some cls => .ok cls
  | none => .error (.unknownVariant name [RelClass.next.name, RelClass.child.name])

/-- A class, which may also be written as an object with the name as its key and nothing in it. -/
def classOf : Value → Except Mismatch RelClass
  | .text name => classNamed name
  | .object [(name, v)] => do
    let cls ← classNamed name
    match v with
    | .null | .object [] => .ok cls
    | v => .error (v.wrongType "unit")
  | .object _ => .error (.wrongMap "map with a single key")
  | v => .error (v.wrongType "string or map")

namespace OpDraft

/-- Whether a field was read. -/
def has (d : OpDraft) : OpField → Bool
  | .id => d.id.isSome
  | .uuid => d.uuid.isSome
  | .pid => d.pid.isSome
  | .cmdline => d.cmdline.isSome
  | .src => d.src.isSome
  | .dst => d.dst.isSome
  | .cls => d.cls.isSome

/-- The draft with the value of one more field. -/
def add (d : OpDraft) (f : OpField) (v : Value) : Except Mismatch OpDraft :=
  match f with
  | .id => (nodeIdOf v).map fun id => { d with id := some id }
  | .uuid => (textOf v).map fun uuid => { d with uuid := some uuid }
  | .pid => (pidOf v).map fun pid => { d with pid := some pid }
  | .cmdline => (textOf v).map fun cmdline => { d with cmdline := some cmdline }
  | .src => (nodeIdOf v).map fun src => { d with src := some src }
  | .dst => (nodeIdOf v).map fun dst => { d with dst := some dst }
  | .cls => (classOf v).map fun cls => { d with cls := some cls }

/-- The draft with the members of an object, those of the tag's fields. -/
def addMembers (tag : OpTag) : OpDraft → List (String × Value) → Except Mismatch OpDraft
  | d, [] => .ok d
  | d, (name, v) :: members =>
    match tag.fields.find? fun f => f.name == name with
    | none => d.addMembers tag members
    | some f =>
      if d.has f then .error (.duplicateField f.name)
      else
        match d.add f v with
        | .error m => .error m
        | .ok d => d.addMembers tag members

/-- The draft with the elements of an array, in the order of the tag's fields. -/
def addElements (tag : OpTag) : OpDraft → List OpField → List Value → Except Mismatch OpDraft
  | d, [], [] => .ok d
  | _, [], extra =>
    let n := tag.fields.length
    .error (.wrongLength (n + extra.length) (toString n ++ " elements in sequence"))
  | _, f :: fs, [] =>
    .error (.wrongLength (tag.fields.length - (f :: fs).length) tag.expectation)
  | d, f :: fs, v :: vs =>
    match d.add f v with
    | .error m => .error m
    | .ok d => d.addElements tag fs vs

/-- The value of a field that has to be there. -/
def demand {α : Type} (f : OpField) : Option α → Except Mismatch α
  | some a => .ok a
  | none => .error (.missingField f.name)

/-- The operation of a draft. -/
def toOp (d : OpDraft) : OpTag → Except Mismatch Op
  | .createNode => do
    let id ← demand .id d.id
    let uuid ← demand .uuid d.uuid
    let pid ← demand .pid d.pid
    let cmdline ← demand .cmdline d.cmdline
    return .createNode id uuid pid cmdline
  | .createRel => do
    let src ← demand .src d.src
    let dst ← demand .dst d.dst
    let cls ← demand .cls d.cls
    return .createRel src dst cls
  | .updateNode => do
    let id ← demand .id d.id
    let pid ← demand .pid d.pid
    let cmdline ← demand .cmdline d.cmdline
    return .updateNode id pid cmdline

end OpDraft

/-- The operation of an object's members without the tag. -/
def opOfMembers (tag : OpTag) (members : List (String × Value)) : Except Mismatch Op :=
  match OpDraft.addMembers tag {} members with
  | .error m => .error m
  | .ok d => d.toOp tag

/-- The operation of an array's elements behind the tag. -/
def opOfElements (tag : OpTag) (elements : List Value) : Except Mismatch Op :=
  match OpDraft.addElements tag {} tag.fields elements with
  | .error m => .error m
  | .ok d => d.toOp tag

/-! ## Reading -/

/-- Reads the id of a node. -/
def readNodeId (s : Bytes) : Read NodeId := readNatural "u64" UInt64.size s

/-- Reads the name of a tag. -/
def readTag (s : Bytes) : Read OpTag :=
  match readString "variant identifier" s with
  | .error f => .error f
  | .ok (name, r) =>
    match OpTag.ofName? name with
    | some tag => .ok (tag, r)
    | none => .error (.here (.mismatch (.unknownVariant name (OpTag.all.map OpTag.name))) r)

/-- The members of an object that were read so far: the tag if it came, and the others, last one
first. -/
structure TaggedMembers where
  /-- The tag. -/
  tag : Option OpTag := none
  /-- The other members. -/
  others : List (String × Value) := []

/-- The key of the tag. -/
def tagKey : String := "op"

/-- Reads the member behind a key, inside `outer` open containers. -/
def readTaggedMember (outer : Nat) (st : TaggedMembers) (key : String) (s : Bytes) :
    Except Fault (TaggedMembers × Bytes) :=
  if key = tagKey then
    match st.tag with
    | some _ => .error (.here (.mismatch (.duplicateField tagKey)) s)
    | none =>
      match readColon s with
      | .error f => .error f
      | .ok s =>
        match readTag s with
        | .error f => .error f
        | .ok (tag, r) => .ok ({ st with tag := some tag }, r)
  else
    match readColon s with
    | .error f => .error f
    | .ok s =>
      match readValue outer s with
      | .error f => .error f
      | .ok (v, r) => .ok ({ st with others := (key, v) :: st.others }, r)

theorem length_readTag_le {s r : Bytes} {tag : OpTag} (h : readTag s = .ok (tag, r)) :
    r.length ≤ s.length := by
  unfold readTag at h
  grind [→ length_readString_le]

theorem length_readTaggedMember_le {outer : Nat} {st st' : TaggedMembers} {key : String}
    {s r : Bytes} (h : readTaggedMember outer st key s = .ok (st', r)) : r.length ≤ s.length := by
  unfold readTaggedMember at h
  grind [→ length_readColon_lt, → length_readTag_le, → length_readValue_le]

/-- The step that collects the members of an operation. -/
def taggedStep (outer : Nat) : MemberStep TaggedMembers where
  run := readTaggedMember outer
  short := length_readTaggedMember_le

/-- Reads the elements of an array behind its first one, inside `outer` open containers. -/
def readElements (outer : Nat) (done : List Value) (s : Bytes) : Read (List Value) :=
  match _h : moreElements false s with
  | .error f => .error f
  | .ok (false, r) =>
    match endElements r with
    | .error f => .error f
    | .ok r => .ok (done.reverse, r)
  | .ok (true, r) =>
    match _h₁ : readValue outer r with
    | .error f => .error f
    | .ok (v, r) => readElements outer (v :: done) r
termination_by s.length
decreasing_by
  have := (length_moreElements_le _h).2 rfl rfl
  have := length_readValue_le _h₁
  omega

/-- The outcome of reading with a mismatch at the place reached. -/
def orMismatch {α : Type} (r : Bytes) : Except Mismatch α → Read α
  | .ok a => .ok (a, r)
  | .error m => .error (.here (.mismatch m) r)

theorem rest_of_orMismatch {α : Type} {r r' : Bytes} {a : α} {outcome : Except Mismatch α}
    (h : orMismatch r outcome = .ok (a, r')) : r' = r := by
  unfold orMismatch at h
  split at h <;> simp_all

/-- Reads an operation inside `outer` open containers. -/
def readOpInside (outer : Nat) (s : Bytes) : Read Op :=
  match skipBlanks s with
  | [] => .error (.next .endOfValue [])
  | b :: r =>
    if b = openBrace then
      match foldMembers (taggedStep (outer + 1)) {} true r with
      | .error f => .error f
      | .ok (st, r) =>
        match st.tag with
        | none => .error (.here (.mismatch (.missingField tagKey)) r)
        | some tag => orMismatch r (opOfMembers tag st.others.reverse)
    else if b = openBracket then
      match moreElements true r with
      | .error f => .error f
      | .ok (false, r) => .error (.here (.mismatch (.missingField tagKey)) r)
      | .ok (true, r) =>
        match readTag r with
        | .error f => .error f
        | .ok (tag, r) =>
          match readElements (outer + 1) [] r with
          | .error f => .error f
          | .ok (elements, r) => orMismatch r (opOfElements tag elements)
    else .error (wrongType "internally tagged enum GraphOp" (b :: r))

/-- Reads an operation. -/
def readOp (s : Bytes) : Read Op := readOpInside 0 s

theorem length_readElements_le {outer : Nat} {done vs : List Value} {s r : Bytes}
    (h : readElements outer done s = .ok (vs, r)) : r.length ≤ s.length := by
  fun_induction readElements outer done s with
  | case1 => simp at h
  | case2 => simp at h
  | case3 done s r₁ hmore r₂ hend =>
    have := (length_moreElements_le hmore).1
    have := length_endElements_lt hend
    simp_all
    omega
  | case4 => simp at h
  | case5 done s r₁ hmore v r₂ hread ih =>
    have := (length_moreElements_le hmore).1
    have := length_readValue_le hread
    have := ih h
    omega

theorem length_readOpInside_lt {outer : Nat} {s r : Bytes} {op : Op}
    (h : readOpInside outer s = .ok (op, r)) : r.length < s.length := by
  have h₀ := length_skipBlanks_le s
  unfold readOpInside at h
  split at h
  · simp at h
  · rename_i b r₁ hs
    rw [hs] at h₀
    simp only [List.length_cons] at h₀
    split at h
    · grind [→ length_foldMembers_lt, → rest_of_orMismatch]
    · grind [→ length_moreElements_le, → length_readTag_le, → length_readElements_le,
        → rest_of_orMismatch]

/-- Reads the operations of an array behind some that it holds. -/
def readOpsFrom (done : List Op) (s : Bytes) : Read (List Op) :=
  match _h : moreElements done.isEmpty s with
  | .error f => .error f
  | .ok (false, r) =>
    match endElements r with
    | .error f => .error f
    | .ok r => .ok (done.reverse, r)
  | .ok (true, r) =>
    match _h₁ : readOpInside 1 r with
    | .error f => .error f
    | .ok (op, r) => readOpsFrom (op :: done) r
termination_by s.length
decreasing_by
  have := (length_moreElements_le _h).1
  have := length_readOpInside_lt _h₁
  omega

/-- Reads a list of operations. -/
def readOps (s : Bytes) : Read (List Op) :=
  match skipBlanks s with
  | [] => .error (.next .endOfValue [])
  | b :: r =>
    if b = openBracket then readOpsFrom [] r else .error (wrongType "a sequence" (b :: r))

end Lineage.Graph

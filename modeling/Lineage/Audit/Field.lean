/-!
# Fields of an audit record

A record of the audit trace has 22 known fields.  Each has a key in the JSON object, a type, and a
position, which is the number of its bit in a set of fields.  Nine fields are required.
-/

namespace Lineage.Audit

/-- The types of fields. -/
inductive FieldType where
  /-- A string. -/
  | text
  /-- A number of 32 bits. -/
  | word32
  /-- A number of 64 bits. -/
  | word64
  deriving DecidableEq, Repr

/-- The values of a type of fields. -/
@[reducible] def FieldType.Value : FieldType → Type
  | .text => String
  | .word32 => UInt32
  | .word64 => UInt64

/-- A known field of a record. -/
inductive Field where
  /-- The name of the audited event. -/
  | event
  /-- The host it happened on. -/
  | host
  /-- The monotonic time in nanoseconds. -/
  | time
  /-- The process. -/
  | pid
  /-- Its parent process. -/
  | ppid
  /-- The thread. -/
  | tid
  /-- The user. -/
  | uid
  /-- The name of the program. -/
  | exec
  /-- The command line. -/
  | cmdline
  /-- The first path argument. -/
  | upath1
  /-- The second path argument. -/
  | upath2
  /-- The network address. -/
  | address
  /-- The file descriptor. -/
  | fd
  /-- The flags of the call. -/
  | flags
  /-- The path of the file descriptor. -/
  | fdpath
  /-- The identity of the process that acts. -/
  | subjProcUuid
  /-- The identity of the thread that acts. -/
  | subjThrUuid
  /-- The identity of the first argument. -/
  | argObjUuid1
  /-- The identity of the second argument. -/
  | argObjUuid2
  /-- The identity of the first result. -/
  | retObjUuid1
  /-- The identity of the second result. -/
  | retObjUuid2
  /-- The value the call returned. -/
  | retval
  deriving DecidableEq, Repr

namespace Field

/-- All fields in the order of their positions. -/
def all : List Field :=
  [.event, .host, .time, .pid, .ppid, .tid, .uid, .exec, .cmdline, .upath1, .upath2, .address,
    .fd, .flags, .fdpath, .subjProcUuid, .subjThrUuid, .argObjUuid1, .argObjUuid2,
    .retObjUuid1, .retObjUuid2, .retval]

/-- The key of a field. -/
def key : Field → String
  | .event => "event"
  | .host => "host"
  | .time => "time"
  | .pid => "pid"
  | .ppid => "ppid"
  | .tid => "tid"
  | .uid => "uid"
  | .exec => "exec"
  | .cmdline => "cmdline"
  | .upath1 => "upath1"
  | .upath2 => "upath2"
  | .address => "address"
  | .fd => "fd"
  | .flags => "flags"
  | .fdpath => "fdpath"
  | .subjProcUuid => "subjprocuuid"
  | .subjThrUuid => "subjthruuid"
  | .argObjUuid1 => "arg_objuuid1"
  | .argObjUuid2 => "arg_objuuid2"
  | .retObjUuid1 => "ret_objuuid1"
  | .retObjUuid2 => "ret_objuuid2"
  | .retval => "retval"

/-- The field with a key. -/
def ofKey? : String → Option Field
  | "event" => some .event
  | "host" => some .host
  | "time" => some .time
  | "pid" => some .pid
  | "ppid" => some .ppid
  | "tid" => some .tid
  | "uid" => some .uid
  | "exec" => some .exec
  | "cmdline" => some .cmdline
  | "upath1" => some .upath1
  | "upath2" => some .upath2
  | "address" => some .address
  | "fd" => some .fd
  | "flags" => some .flags
  | "fdpath" => some .fdpath
  | "subjprocuuid" => some .subjProcUuid
  | "subjthruuid" => some .subjThrUuid
  | "arg_objuuid1" => some .argObjUuid1
  | "arg_objuuid2" => some .argObjUuid2
  | "ret_objuuid1" => some .retObjUuid1
  | "ret_objuuid2" => some .retObjUuid2
  | "retval" => some .retval
  | _ => none

/-- The position of a field. -/
def index : Field → Nat
  | .event => 0
  | .host => 1
  | .time => 2
  | .pid => 3
  | .ppid => 4
  | .tid => 5
  | .uid => 6
  | .exec => 7
  | .cmdline => 8
  | .upath1 => 9
  | .upath2 => 10
  | .address => 11
  | .fd => 12
  | .flags => 13
  | .fdpath => 14
  | .subjProcUuid => 15
  | .subjThrUuid => 16
  | .argObjUuid1 => 17
  | .argObjUuid2 => 18
  | .retObjUuid1 => 19
  | .retObjUuid2 => 20
  | .retval => 21

/-- The type of a field. -/
def type : Field → FieldType
  | .time => .word64
  | .pid => .word32
  | .ppid => .word32
  | .tid => .word32
  | .uid => .word32
  | .fd => .word32
  | .flags => .word32
  | .retval => .word32
  | _ => .text

/-- Whether every record has to have the field. -/
def isRequired : Field → Bool
  | .event | .time | .pid | .ppid | .tid | .uid | .subjProcUuid | .subjThrUuid | .retval => true
  | _ => false

theorem ofKey?_key (f : Field) : ofKey? f.key = some f := by cases f <;> rfl

theorem key_of_ofKey? {k : String} {f : Field} (h : ofKey? k = some f) : f.key = k := by
  unfold ofKey? at h
  split at h <;> simp only [Option.some.injEq, reduceCtorEq] at h <;> subst h <;> rfl

theorem mem_all (f : Field) : f ∈ all := by cases f <;> decide

theorem index_lt (f : Field) : f.index < 22 := by cases f <;> decide

theorem index_injective {f g : Field} (h : f.index = g.index) : f = g := by
  have hf : all[f.index]? = some f := by cases f <;> rfl
  have hg : all[g.index]? = some g := by cases g <;> rfl
  rw [h, hg] at hf
  exact (Option.some.inj hf).symm

end Field

end Lineage.Audit

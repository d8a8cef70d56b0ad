import Lineage.Audit.FieldSet

/-!
# Audit events

An event has a value for every known field.  `Event.get` and `Event.set` reach the value of a field
that is only known when the program runs.  What the lineage of processes takes from an event is its
kind, which follows from the exact spelling of the event's name (`EventKind.ofName`).
-/

namespace Lineage.Audit

/-- An audit event.  Text that was absent is empty and numbers that were absent are zero. -/
structure Event where
  /-- The name of the audited event. -/
  event : String := ""
  /-- The host it happened on. -/
  host : String := ""
  /-- The monotonic time in nanoseconds. -/
  time : UInt64 := 0
  /-- The process. -/
  pid : UInt32 := 0
  /-- Its parent process. -/
  ppid : UInt32 := 0
  /-- The thread. -/
  tid : UInt32 := 0
  /-- The user. -/
  uid : UInt32 := 0
  /-- The name of the program. -/
  exec : String := ""
  /-- The command line. -/
  cmdline : String := ""
  /-- The first path argument. -/
  upath1 : String := ""
  /-- The second path argument. -/
  upath2 : String := ""
  /-- The network address. -/
  address : String := ""
  /-- The file descriptor. -/
  fd : UInt32 := 0
  /-- The flags of the call. -/
  flags : UInt32 := 0
  /-- The path of the file descriptor. -/
  fdpath : String := ""
  /-- The identity of the process that acts. -/
  subjProcUuid : String := ""
  /-- The identity of the thread that acts. -/
  subjThrUuid : String := ""
  /-- The identity of the first argument. -/
  argObjUuid1 : String := ""
  /-- The identity of the second argument. -/
  argObjUuid2 : String := ""
  /-- The identity of the first result. -/
  retObjUuid1 : String := ""
  /-- The identity of the second result. -/
  retObjUuid2 : String := ""
  /-- The value the call returned. -/
  retval : UInt32 := 0
  deriving DecidableEq, Repr, Inhabited

namespace Event

/-- The value of a field. -/
def get (e : Event) : (f : Field) → f.type.Value
  | .event => e.event
  | .host => e.host
  | .time => e.time
  | .pid => e.pid
  | .ppid => e.ppid
  | .tid => e.tid
  | .uid => e.uid
  | .exec => e.exec
  | .cmdline => e.cmdline
  | .upath1 => e.upath1
  | .upath2 => e.upath2
  | .address => e.address
  | .fd => e.fd
  | .flags => e.flags
  | .fdpath => e.fdpath
  | .subjProcUuid => e.subjProcUuid
  | .subjThrUuid => e.subjThrUuid
  | .argObjUuid1 => e.argObjUuid1
  | .argObjUuid2 => e.argObjUuid2
  | .retObjUuid1 => e.retObjUuid1
  | .retObjUuid2 => e.retObjUuid2
  | .retval => e.retval

/-- The event with another value in one field. -/
def set (e : Event) : (f : Field) → f.type.Value → Event
  | .event, v => { e with event := v }
  | .host, v => { e with host := v }
  | .time, v => { e with time := v }
  | .pid, v => { e with pid := v }
  | .ppid, v => { e with ppid := v }
  | .tid, v => { e with tid := v }
  | .uid, v => { e with uid := v }
  | .exec, v => { e with exec := v }
  | .cmdline, v => { e with cmdline := v }
  | .upath1, v => { e with upath1 := v }
  | .upath2, v => { e with upath2 := v }
  | .address, v => { e with address := v }
  | .fd, v => { e with fd := v }
  | .flags, v => { e with flags := v }
  | .fdpath, v => { e with fdpath := v }
  | .subjProcUuid, v => { e with subjProcUuid := v }
  | .subjThrUuid, v => { e with subjThrUuid := v }
  | .argObjUuid1, v => { e with argObjUuid1 := v }
  | .argObjUuid2, v => { e with argObjUuid2 := v }
  | .retObjUuid1, v => { e with retObjUuid1 := v }
  | .retObjUuid2, v => { e with retObjUuid2 := v }
  | .retval, v => { e with retval := v }

theorem get_set_self (e : Event) (f : Field) (v : f.type.Value) : (e.set f v).get f = v := by
  cases f <;> rfl

theorem get_set_ne (e : Event) {f g : Field} (v : f.type.Value) (h : g ≠ f) :
    (e.set f v).get g = e.get g := by
  cases f <;> cases g <;> trivial

end Event

/-- The kinds of events that the lineage of processes tells apart. -/
inductive EventKind where
  /-- A process starts another program. -/
  | execve
  /-- A process starts a child. -/
  | fork
  /-- A process starts a child that borrows its memory. -/
  | vfork
  /-- A process ends. -/
  | exit
  /-- Anything else. -/
  | other
  deriving DecidableEq, Repr

/-- The kind of an event name. -/
def EventKind.ofName : String → EventKind
  | "audit:event:aue_execve:" => .execve
  | "audit:event:aue_fork:" => .fork
  | "audit:event:aue_vfork:" => .vfork
  | "audit:event:aue_exit:" => .exit
  | _ => .other

/-- The kind of an event. -/
def Event.kind (e : Event) : EventKind := .ofName e.event

end Lineage.Audit

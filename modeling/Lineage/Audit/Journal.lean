import Lineage.Audit.Document

/-!
# Journals

A journal holds one document per line and may fail while it is read (`Source`).  A line is *blank*
when it holds nothing but space, tab, line feed, form feed and carriage return.  Blank lines are
counted and skipped.

`Source.items` says what a journal holds.  It goes line by line, and each line that is not blank
gives its events or its one error.  `Reader.next` gives the same items one at a time.  After the
last item, or after the failure of the source, it gives nothing any more.
-/

namespace Lineage.Audit

open Lineage.Json

/-! ## Errors with a line -/

/-- What is wrong with a line. -/
inductive LineCause where
  /-- A record of the line is refused. -/
  | record (error : RecordError)
  /-- The source failed before the line was complete. -/
  | source (reason : String)

/-- An error and its line, counted from one. -/
structure LineError where
  /-- The line. -/
  line : Nat
  /-- What is wrong with it. -/
  cause : LineCause

/-- The message of a cause, without its line. -/
def LineCause.message : LineCause → String
  | .record error => error.message
  | .source reason => "failed to read trace input: " ++ reason

/-- The message of an error. -/
def LineError.message (e : LineError) : String :=
  "line " ++ toString e.line ++ ": " ++ e.cause.message

/-- Whether the error concerns one line and not the whole source. -/
def LineError.isRecordError (e : LineError) : Bool :=
  match e.cause with
  | .record _ => true
  | .source _ => false

/-- The missing fields, if that is the error. -/
def LineError.missing? (e : LineError) : Option FieldSet :=
  match e.cause with
  | .record error => error.missing?
  | .source _ => none

/-! ## Lines -/

/-- Whether a byte may stand in a blank line. -/
def isLineBlank (b : UInt8) : Bool := isBlank b || b == 0x0c

/-- Whether a line is blank. -/
def isBlankLine (line : Bytes) : Bool := line.all isLineBlank

/-- The first line of a text, with its line feed if it has one, and the text behind it. -/
def splitLine (s : Bytes) : Bytes × Bytes :=
  match s.dropWhile (· != lineFeed) with
  | [] => (s, [])
  | b :: r => (s.takeWhile (· != lineFeed) ++ [b], r)

/-- The events of a line. -/
def readLine (line : Nat) (text : Bytes) : Except LineError (List Event) :=
  (readDocument text).mapError fun error => ⟨line, .record error⟩

/-- A journal: its bytes, and the reason for which the source fails behind them, if it does. -/
structure Source where
  /-- The bytes. -/
  bytes : Bytes
  /-- Why the source fails behind the bytes. -/
  failure : Option String := none

theorem length_splitLine_lt {b : UInt8} {s : Bytes} :
    (splitLine (b :: s)).2.length < (b :: s).length := by
  have h := (List.dropWhile_sublist (l := b :: s) (· != lineFeed)).length_le
  unfold splitLine
  split
  · simp
  · rename_i h'
    rw [h'] at h
    simp at h ⊢
    omega

/-- The lines of a text.  The last one may lack its line feed. -/
def splitLines (s : Bytes) : List Bytes :=
  match s with
  | [] => []
  | b :: r => (splitLine (b :: r)).1 :: splitLines (splitLine (b :: r)).2
termination_by s.length
decreasing_by exact length_splitLine_lt

/-- Whether a line ends in a line feed. -/
def isComplete (line : Bytes) : Bool := line.getLast? == some lineFeed

namespace Source

/-- The lines that can be read.  A source that fails loses the line it fails in. -/
def lines (s : Source) : List Bytes :=
  match s.failure with
  | none => splitLines s.bytes
  | some _ => (splitLines s.bytes).filter isComplete

/-- The lines that are not blank, with their numbers. -/
def numberedLines (s : Source) : List (Nat × Bytes) :=
  ((s.lines.zipIdx 1).map fun (text, line) => (line, text)).filter fun p => !isBlankLine p.2

/-- The error of the source, if it fails. -/
def error? (s : Source) : Option LineError :=
  s.failure.map fun reason => ⟨s.lines.length + 1, .source reason⟩

end Source

/-- An event or an error. -/
abbrev Item := Except LineError Event

/-- What one line gives: its events or its error. -/
def lineItems (line : Nat) (text : Bytes) : List Item :=
  match readLine line text with
  | .ok events => events.map .ok
  | .error e => [.error e]

/-- What a journal holds, in order. -/
def Source.items (s : Source) : List Item :=
  (s.numberedLines.flatMap fun p => lineItems p.1 p.2) ++ (s.error?.map .error).toList

/-! ## One item at a time -/

/-- The state between two items. -/
structure Reader where
  /-- The bytes that are unread. -/
  rest : Bytes
  /-- Why the source fails behind them, if it does. -/
  failure : Option String
  /-- The number of lines read. -/
  line : Nat
  /-- Events of the last line that were not given yet. -/
  pending : List Event
  /-- Whether the end was reached. -/
  ended : Bool

namespace Reader

/-- A reader at the start of a journal. -/
def new (s : Source) : Reader := ⟨s.bytes, s.failure, 0, [], false⟩

/-- The reader at its end. -/
def finish (r : Reader) : Reader := { r with rest := [], ended := true }

/-- The next item, when nothing is pending and the end was not reached. -/
def nextLine (r : Reader) : Option Item × Reader :=
  match _h : r.rest with
  | [] =>
    match r.failure with
    | none => (none, r.finish)
    | some reason => (some (.error ⟨r.line + 1, .source reason⟩), r.finish)
  | b :: s =>
    let text := (splitLine (b :: s)).1
    let rest := (splitLine (b :: s)).2
    match r.failure, isComplete text with
    | some reason, false => (some (.error ⟨r.line + 1, .source reason⟩), r.finish)
    | _, _ =>
      let r' : Reader := { r with rest := rest, line := r.line + 1 }
      if isBlankLine text then nextLine r'
      else
        match readLine r'.line text with
        | .error e => (some (.error e), r')
        | .ok [] => nextLine r'
        | .ok (event :: events) => (some (.ok event), { r' with pending := events })
termination_by r.rest.length
decreasing_by
  all_goals rw [_h]; exact length_splitLine_lt

/-- The next item, or nothing at the end. -/
def next (r : Reader) : Option Item × Reader :=
  match r.pending with
  | event :: events => (some (.ok event), { r with pending := events })
  | [] => if r.ended then (none, r) else r.nextLine

/-- The items up to the end, at most `fuel` of them, and the reader behind them. -/
def drain : Nat → Reader → List Item × Reader
  | 0, r => ([], r)
  | fuel + 1, r =>
    match r.next with
    | (none, r) => ([], r)
    | (some item, r) =>
      let (items, r) := drain fuel r
      (item :: items, r)

/-- All items and the reader behind them.  A text gives fewer items than it has bytes, and the
source one more. -/
def toList (r : Reader) : List Item × Reader :=
  r.drain (r.rest.length + r.pending.length + 2)

end Reader

end Lineage.Audit

import Lineage.Audit.Journal
import Lineage.Tracker.Basic

/-!
# The digest of a journal

The digest is everything that a journal comes to before the store sees any of it: the operations of
its lines in order, the counts, and the lines that were refused.  A refused line is skipped, or it
ends the digest, as the session says (`digest`).

`cut` cuts the operations into batches of one size and what is left over.
-/

namespace Lineage.Session

open Lineage.Audit (LineError Source readLine)
open Lineage.Graph (Op)
open Lineage.Json (Bytes)

/-- What some lines come to. -/
structure Digest where
  /-- The tracker behind them. -/
  tracker : Tracker
  /-- Their operations. -/
  ops : List Op := []
  /-- The number of their events. -/
  events : Nat := 0
  /-- The errors of the lines that were skipped. -/
  skipped : List LineError := []
  /-- The error of the line that ended the digest. -/
  fatal : Option LineError := none

/-- The digest of numbered lines.  The flag tells whether refused lines are skipped. -/
def digest (skip : Bool) (t : Tracker) : List (Nat × Bytes) → Digest
  | [] => { tracker := t }
  | (line, text) :: rest =>
    match readLine line text with
    | .ok events =>
      let (t, ops) := t.run events
      let d := digest skip t rest
      { d with ops := ops ++ d.ops, events := events.length + d.events }
    | .error e =>
      if skip then
        let d := digest skip t rest
        { d with skipped := e :: d.skipped }
      else { tracker := t, fatal := some e }

/-- The digest of a journal, as far as it can be read. -/
def digestSource (skip : Bool) (t : Tracker) (source : Source) : Digest :=
  digest skip t source.numberedLines

/-! ## Batches -/

/-- Cuts a list into pieces of `n` elements, and the fewer elements that are left over. -/
def cut {α : Type} (n : Nat) (l : List α) : List (List α) × List α :=
  if _h : 0 < n ∧ n ≤ l.length then
    let (full, rest) := cut n (l.drop n)
    (l.take n :: full, rest)
  else ([], l)
termination_by l.length
decreasing_by
  simp only [List.length_drop]
  omega

end Lineage.Session

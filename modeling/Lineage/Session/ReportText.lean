import Lineage.Json.Printer
import Lineage.Session.Ingest

/-!
# The JSON form of a report

A report is an object of its counts in a fixed order, with those of the tracker in an object of
their own at the end.  It is laid out over lines for people to read.
-/

namespace Lineage.Session

open Lineage.Json (layoutObject)

/-- The JSON form of the counters of a tracker, at a level. -/
def printTrackerStats (level : Nat) (s : TrackerStats) : String :=
  layoutObject level [("events", toString s.events), ("nodes_created", toString s.nodesCreated),
    ("live", toString s.live)]

/-- The JSON form of a report. -/
def Report.print (r : Report) : String :=
  layoutObject 0 [("lines", toString r.lines), ("events", toString r.events),
    ("invalid_records", toString r.invalid), ("ops", toString r.ops),
    ("batches", toString r.batches), ("engine", printTrackerStats 1 r.tracker)]

end Lineage.Session

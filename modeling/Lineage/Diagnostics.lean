/-!
# Diagnostics

What a session tells its host besides its result: *records* of what happened, and the *spans* in
which the stages run.  A record has a level, a message and details by name.  A span has a level, a
name of its own and details.
-/

namespace Lineage

/-- How much a record or a span matters. -/
inductive Level where
  | debug
  | info
  | warn
  | error
  deriving DecidableEq, Repr

/-- The name of a level. -/
def Level.name : Level → String
  | .debug => "DEBUG"
  | .info => "INFO"
  | .warn => "WARN"
  | .error => "ERROR"

/-- The value of a detail. -/
inductive Detail where
  | text (s : String)
  | number (n : Nat)
  deriving DecidableEq, Repr

/-- A record of what happened. -/
structure LogRecord where
  /-- Its level. -/
  level : Level
  /-- Its message. -/
  message : String
  /-- Its details by name. -/
  details : List (String × Detail)
  deriving DecidableEq, Repr

/-! ## Spans -/

/-- The spans of the stages. -/
inductive Span where
  /-- A whole session over a source. -/
  | session (source : String)
  /-- The reader of lines. -/
  | reader
  /-- One of the parsers. -/
  | parser (worker : Nat)
  /-- The engine. -/
  | engine
  /-- One batch on its way to the store. -/
  | batch (number ops : Nat)
  deriving DecidableEq, Repr

namespace Span

/-- The name of a span. -/
def name : Span → String
  | .session _ => "ingest_session"
  | .reader => "trace_reader"
  | .parser _ => "parser_worker"
  | .engine => "provenance_engine"
  | .batch .. => "persist_batch"

/-- The level of a span. -/
def level : Span → Level
  | .session _ => .info
  | _ => .debug

/-- The details of a span. -/
def details : Span → List (String × Detail)
  | .session source => [("source", .text source)]
  | .reader | .engine => []
  | .parser worker => [("worker", .number worker)]
  | .batch number ops => [("batch", .number number), ("ops", .number ops)]

end Span

end Lineage

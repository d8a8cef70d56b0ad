import Lineage.RingBuffer.Basic

/-!
# Configuration of a session

A session runs one parser next to its engine (`Mode.simple`), or as many parsers and as many slots
between the stages as its host asks for (`Mode.advanced`).  Operations go to the store in batches of
`batchSize`, and records that are refused are skipped or end the ingest.

`Config.validate` names the first setting that cannot be honoured.  It does not look at how much
memory the others ask for.  `Config.ringsFit` and `Config.batchFits` tell whether a vector may have
that many bytes; whoever asks for more panics.
-/

namespace Lineage.Session

/-- How the stages run. -/
inductive Mode where
  /-- With one parser and slots enough. -/
  | simple
  /-- With parsers and slots as the host says. -/
  | advanced (parserThreads ringCapacity : Nat)
  deriving DecidableEq, Repr

/-- The slots between two stages when the host does not say. -/
def defaultRingCapacity : Nat := 32768

/-- The operations of a batch when the host does not say. -/
def defaultBatchSize : Nat := 512

/-- The settings of a session. -/
structure Config where
  /-- How the stages run. -/
  mode : Mode := .simple
  /-- The number of operations in a full batch. -/
  batchSize : Nat := defaultBatchSize
  /-- Whether a refused record is skipped. -/
  skipInvalid : Bool := true
  deriving DecidableEq, Repr

/-- A setting that cannot be honoured. -/
inductive ConfigError where
  /-- A batch holds nothing. -/
  | batchSize (n : Nat)
  /-- There is no parser. -/
  | parserThreads (n : Nat)
  /-- The number of slots is no power of two. -/
  | ringCapacity (n : Nat)
  deriving DecidableEq, Repr

/-- The message of an error. -/
def ConfigError.message : ConfigError → String
  | .batchSize n => "batch size must be at least 1, got " ++ toString n
  | .parserThreads n => "parser thread count must be at least 1, got " ++ toString n
  | .ringCapacity n => "ring capacity must be a power of two, got " ++ toString n

namespace Config

/-- The number of parsers. -/
def parserThreads (c : Config) : Nat :=
  match c.mode with
  | .simple => 1
  | .advanced threads _ => threads

/-- The number of slots between two stages. -/
def ringCapacity (c : Config) : Nat :=
  match c.mode with
  | .simple => defaultRingCapacity
  | .advanced _ capacity => capacity

/-- Checks the settings. -/
def validate (c : Config) : Except ConfigError Unit :=
  if c.batchSize = 0 then .error (.batchSize c.batchSize)
  else
    match c.mode with
    | .simple => .ok ()
    | .advanced threads capacity =>
      if threads = 0 then .error (.parserThreads threads)
      else if !RingBuffer.isCapacity capacity then .error (.ringCapacity capacity)
      else .ok ()

end Config

/-! ## Memory -/

/-- The bytes that a vector may have. -/
def vectorLimit : Nat := 9223372036854775807

/-- The bytes of an operation. -/
def opBytes : Nat := 64

/-- The bytes of a slot between two stages. -/
def slotBytes : Nat := 40

/-- The bytes that a ring buffer has for each of its roles. -/
def roleBytes : Nat := 128

/-- How a thread can come to fall. -/
inductive Panic where
  /-- It asked for a vector with more bytes than one may have. -/
  | capacityOverflow
  deriving DecidableEq, Repr

/-- The message of a panic. -/
def Panic.message : Panic → String
  | .capacityOverflow => "capacity overflow"

namespace Config

/-- Whether the ring buffers between the stages may be asked for. -/
def ringsFit (c : Config) : Bool :=
  decide (c.ringCapacity * slotBytes ≤ vectorLimit) &&
    decide (c.parserThreads * roleBytes ≤ vectorLimit)

/-- Whether room for a full batch may be asked for. -/
def batchFits (c : Config) : Bool := decide (c.batchSize * opBytes ≤ vectorLimit)

/-- Whether all that the stages need may be asked for. -/
def fits (c : Config) : Bool := c.ringsFit && c.batchFits

end Config

end Lineage.Session

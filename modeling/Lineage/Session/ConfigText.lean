import Lineage.Json.Printer
import Lineage.Json.Value
import Lineage.Session.Config

/-!
# The JSON form of a configuration

A configuration is an object, or an array of its settings in order.  The mode has to be there and
the other settings have defaults.  The simple mode is a word, or an object with the word as its key
and nothing in it.  The advanced mode is an object with the word as its key and its own settings
inside, again as an object or an array.

Members with other names are skipped.  A setting that comes a second time is refused before its
value is looked at.
-/

namespace Lineage.Session

open Lineage.Json

/-! ## Writing -/

/-- The JSON form of a mode. -/
def Mode.print : Mode → String
  | .simple => printString "simple"
  | .advanced threads capacity =>
    printObject [("advanced", printObject [("parser_threads", toString threads),
      ("ring_capacity", toString capacity)])]

/-- The JSON form of a configuration. -/
def Config.print (c : Config) : String :=
  printObject [("mode", c.mode.print), ("batch_size", toString c.batchSize),
    ("skip_invalid_records", toString c.skipInvalid)]

/-! ## Reading -/

/-- Reads a number of things. -/
def readCount (s : Bytes) : Read Nat := readNatural "usize" UInt64.size s

/-- The fault of a mismatch where `rest` is unread. -/
def refuse {α : Type} (m : Mismatch) (rest : Bytes) : Except Fault α :=
  .error (.here (.mismatch m) rest)

/-- Reads the colon and the value of a setting that was not read before. -/
def readSetting {α : Type} (name : String) (old : Option α) (read : Bytes → Read α)
    (s : Bytes) :
    Read α :=
  match old with
  | some _ => refuse (.duplicateField name) s
  | none =>
    match readColon s with
    | .error f => .error f
    | .ok r => read r

/-- Reads the colon and skips the value of a member with another name. -/
def skipSetting (s : Bytes) : Except Fault Bytes :=
  match readColon s with
  | .error f => .error f
  | .ok r => skipValue r

theorem length_readCount_le {s r : Bytes} {n : Nat} (h : readCount s = .ok (n, r)) :
    r.length ≤ s.length :=
  length_readNatural_le h

theorem length_readSetting_le {α : Type} {name : String} {old : Option α}
    {read : Bytes → Read α} (hread : ∀ {s r a}, read s = .ok (a, r) → r.length ≤ s.length)
    {s r : Bytes} {a : α} (h : readSetting name old read s = .ok (a, r)) :
    r.length ≤ s.length := by
  unfold readSetting at h
  split at h
  · simp [refuse] at h
  · split at h
    · simp at h
    · rename_i hc
      have := length_readColon_lt hc
      have := hread h
      omega

theorem length_skipSetting_le {s r : Bytes} (h : skipSetting s = .ok r) :
    r.length ≤ s.length := by
  unfold skipSetting at h
  grind [→ length_readColon_lt, → length_skipValue_le]

/-! ### Advanced mode -/

/-- What messages call the settings of the advanced mode. -/
def advancedName : String := "struct variant ConfigMode::Advanced"

/-- The settings of the advanced mode that were read so far. -/
structure AdvancedDraft where
  /-- The number of parsers. -/
  parserThreads : Option Nat := none
  /-- The number of slots between two stages. -/
  ringCapacity : Option Nat := none

/-- Reads the member behind a key. -/
def readAdvancedMember (d : AdvancedDraft) (key : String) (s : Bytes) :
    Except Fault (AdvancedDraft × Bytes) :=
  if key = "parser_threads" then
    match readSetting key d.parserThreads readCount s with
    | .error f => .error f
    | .ok (n, r) => .ok ({ d with parserThreads := some n }, r)
  else if key = "ring_capacity" then
    match readSetting key d.ringCapacity readCount s with
    | .error f => .error f
    | .ok (n, r) => .ok ({ d with ringCapacity := some n }, r)
  else
    match skipSetting s with
    | .error f => .error f
    | .ok r => .ok (d, r)

theorem length_readAdvancedMember_le {d d' : AdvancedDraft} {key : String} {s r : Bytes}
    (h : readAdvancedMember d key s = .ok (d', r)) : r.length ≤ s.length := by
  unfold readAdvancedMember at h
  have h₁ {old s r a} := @length_readSetting_le Nat key old readCount length_readCount_le s r a
  grind [→ length_skipSetting_le]

/-- The step that collects the settings of the advanced mode. -/
def advancedStep : MemberStep AdvancedDraft where
  run := readAdvancedMember
  short := length_readAdvancedMember_le

/-- Reads a number of things from the next place of an array, where `n` elements came before. -/
def readElement (n : Nat) (s : Bytes) : Read Nat :=
  match moreElements (n == 0) s with
  | .error f => .error f
  | .ok (false, r) => refuse (.wrongLength n (advancedName ++ " with 2 elements")) r
  | .ok (true, r) => readCount r

/-- Reads the settings of the advanced mode from an array, behind its bracket. -/
def readAdvancedList (s : Bytes) : Read Mode :=
  match readElement 0 s with
  | .error f => .error f
  | .ok (threads, r) =>
    match readElement 1 r with
    | .error f => .error f
    | .ok (capacity, r) =>
      match endElements r with
      | .error f => .error f
      | .ok r => .ok (.advanced threads capacity, r)

/-- Reads the settings of the advanced mode from an object, behind its brace. -/
def readAdvancedObject (s : Bytes) : Read Mode :=
  match foldMembers advancedStep {} true s with
  | .error f => .error f
  | .ok (d, r) =>
    match d.parserThreads, d.ringCapacity with
    | none, _ => refuse (.missingField "parser_threads") r
    | _, none => refuse (.missingField "ring_capacity") r
    | some threads, some capacity => .ok (.advanced threads capacity, r)

/-- Reads the settings of the advanced mode. -/
def readAdvanced (s : Bytes) : Read Mode :=
  match skipBlanks s with
  | [] => .error (.next .endOfValue [])
  | b :: r =>
    if b = openBrace then readAdvancedObject r
    else if b = openBracket then readAdvancedList r
    else .error (wrongType advancedName (b :: r))

theorem length_readElement_le {n m : Nat} {s r : Bytes} (h : readElement n s = .ok (m, r)) :
    r.length ≤ s.length := by
  unfold readElement refuse at h
  grind [→ length_moreElements_le, → length_readCount_le]

theorem length_readAdvancedList_le {s r : Bytes} {m : Mode}
    (h : readAdvancedList s = .ok (m, r)) : r.length ≤ s.length := by
  unfold readAdvancedList at h
  grind [→ length_readElement_le, → length_endElements_lt]

theorem length_readAdvancedObject_le {s r : Bytes} {m : Mode}
    (h : readAdvancedObject s = .ok (m, r)) : r.length ≤ s.length := by
  unfold readAdvancedObject refuse at h
  grind [→ length_foldMembers_lt]

theorem length_readAdvanced_le {s r : Bytes} {m : Mode} (h : readAdvanced s = .ok (m, r)) :
    r.length ≤ s.length := by
  have h₀ := length_skipBlanks_le s
  unfold readAdvanced at h
  grind [→ length_readAdvancedObject_le, → length_readAdvancedList_le]

/-! ### Modes -/

/-- The names of the modes. -/
def modeNames : List String := ["simple", "advanced"]

/-- Reads the end of the object around a mode. -/
def endMode (mode : Mode) (s : Bytes) : Read Mode :=
  match skipBlanks s with
  | [] => .error (.here .endOfObject [])
  | b :: r => if b = closeBrace then .ok (mode, r) else .error (.here .expectedValue (b :: r))

/-- The mode that a word stands for. -/
def readModeWord (s : Bytes) : Read Mode :=
  match readText s with
  | .error f => .error f
  | .ok (name, r) =>
    if name = "simple" then .ok (.simple, r)
    else if name = "advanced" then refuse (.wrongType .unitVariant "struct variant") r
    else refuse (.unknownVariant name modeNames) r

/-- Reads the colon and the settings of the simple mode, of which there are none. -/
def readSimple (s : Bytes) : Read Mode :=
  match readColon s with
  | .error f => .error f
  | .ok r =>
    match readNull "unit" r with
    | .error f => .error f
    | .ok r => endMode .simple r

/-- Reads the name of a mode, which is the only key of an object, behind its brace. -/
def readModeKey (s : Bytes) : Read String :=
  match skipBlanks s with
  | [] => .error (.next .endOfObject [])
  | b :: r => if b = quote then readText r else .error (.next .keyNotString (b :: r))

/-- Reads a mode from an object, behind its brace. -/
def readModeObject (s : Bytes) : Read Mode :=
  match readModeKey s with
  | .error f => .error f
  | .ok (name, r) =>
    if name = "simple" then readSimple r
    else if name = "advanced" then
      match readColon r with
      | .error f => .error f
      | .ok r =>
        match readAdvanced r with
        | .error f => .error f
        | .ok (mode, r) => endMode mode r
    else refuse (.unknownVariant name modeNames) r

/-- Reads a mode. -/
def readMode (s : Bytes) : Read Mode :=
  match skipBlanks s with
  | [] => .error (.next .endOfValue [])
  | b :: r =>
    if b = quote then readModeWord r
    else if b = openBrace then readModeObject r
    else .error (.next .expectedValue (b :: r))

theorem length_endMode_le {s r : Bytes} {m m' : Mode} (h : endMode m s = .ok (m', r)) :
    r.length ≤ s.length := by
  have h₀ := length_skipBlanks_le s
  unfold endMode at h
  grind

theorem length_readModeWord_le {s r : Bytes} {m : Mode} (h : readModeWord s = .ok (m, r)) :
    r.length ≤ s.length := by
  unfold readModeWord refuse at h
  grind [→ length_readText_lt]

theorem length_readSimple_le {s r : Bytes} {m : Mode} (h : readSimple s = .ok (m, r)) :
    r.length ≤ s.length := by
  unfold readSimple at h
  grind [→ length_readColon_lt, → length_readNull_le, → length_endMode_le]

theorem length_readModeKey_lt {s r : Bytes} {name : String} (h : readModeKey s = .ok (name, r)) :
    r.length < s.length := by
  have h₀ := length_skipBlanks_le s
  unfold readModeKey at h
  grind [→ length_readText_lt]

theorem length_readModeObject_le {s r : Bytes} {m : Mode} (h : readModeObject s = .ok (m, r)) :
    r.length ≤ s.length := by
  unfold readModeObject refuse at h
  grind [→ length_readModeKey_lt, → length_readColon_lt, → length_readSimple_le,
    → length_readAdvanced_le, → length_endMode_le]

theorem length_readMode_le {s r : Bytes} {m : Mode} (h : readMode s = .ok (m, r)) :
    r.length ≤ s.length := by
  have h₀ := length_skipBlanks_le s
  unfold readMode at h
  grind [→ length_readModeWord_le, → length_readModeObject_le]

/-! ### Configurations -/

/-- What messages call a configuration. -/
def configName : String := "struct PipelineConfig"

/-- The settings that were read so far. -/
structure ConfigDraft where
  /-- How the stages run. -/
  mode : Option Mode := none
  /-- The number of operations in a full batch. -/
  batchSize : Option Nat := none
  /-- Whether a refused record is skipped. -/
  skipInvalid : Option Bool := none

/-- The configuration of a draft with a mode. -/
def ConfigDraft.complete (d : ConfigDraft) (mode : Mode) : Config :=
  { mode := mode
    batchSize := d.batchSize.getD defaultBatchSize
    skipInvalid := d.skipInvalid.getD true }

/-- Reads whether something holds. -/
def readSwitch (s : Bytes) : Read Bool := readBoolean "a boolean" s

/-- Reads the member behind a key. -/
def readConfigMember (d : ConfigDraft) (key : String) (s : Bytes) :
    Except Fault (ConfigDraft × Bytes) :=
  if key = "mode" then
    match readSetting key d.mode readMode s with
    | .error f => .error f
    | .ok (m, r) => .ok ({ d with mode := some m }, r)
  else if key = "batch_size" then
    match readSetting key d.batchSize readCount s with
    | .error f => .error f
    | .ok (n, r) => .ok ({ d with batchSize := some n }, r)
  else if key = "skip_invalid_records" then
    match readSetting key d.skipInvalid readSwitch s with
    | .error f => .error f
    | .ok (b, r) => .ok ({ d with skipInvalid := some b }, r)
  else
    match skipSetting s with
    | .error f => .error f
    | .ok r => .ok (d, r)

theorem length_readConfigMember_le {d d' : ConfigDraft} {key : String} {s r : Bytes}
    (h : readConfigMember d key s = .ok (d', r)) : r.length ≤ s.length := by
  unfold readConfigMember at h
  have h₁ {old s r a} := @length_readSetting_le Mode key old readMode length_readMode_le s r a
  have h₂ {old s r a} := @length_readSetting_le Nat key old readCount length_readCount_le s r a
  have h₃ {old s r a} :=
    @length_readSetting_le Bool key old readSwitch length_readBoolean_le s r a
  grind [→ length_skipSetting_le]

/-- The step that collects the settings. -/
def configStep : MemberStep ConfigDraft where
  run := readConfigMember
  short := length_readConfigMember_le

/-- Reads the end of an array that gives a configuration. -/
def endConfig (c : Config) (s : Bytes) : Read Config :=
  match endElements s with
  | .error f => .error f
  | .ok r => .ok (c, r)

/-- Reads the last setting of an array, if it is there. -/
def readLastSetting (c : Config) (s : Bytes) : Read Config :=
  match moreElements false s with
  | .error f => .error f
  | .ok (false, r) => endConfig c r
  | .ok (true, r) =>
    match readSwitch r with
    | .error f => .error f
    | .ok (skipInvalid, r) => endConfig { c with skipInvalid := skipInvalid } r

/-- Reads the settings of an array behind the mode, as far as they are there. -/
def readConfigTail (c : Config) (s : Bytes) : Read Config :=
  match moreElements false s with
  | .error f => .error f
  | .ok (false, r) => endConfig c r
  | .ok (true, r) =>
    match readCount r with
    | .error f => .error f
    | .ok (batchSize, r) => readLastSetting { c with batchSize := batchSize } r

/-- Reads a configuration from an array, behind its bracket. -/
def readConfigList (s : Bytes) : Read Config :=
  match moreElements true s with
  | .error f => .error f
  | .ok (false, r) => refuse (.wrongLength 0 (configName ++ " with 3 elements")) r
  | .ok (true, r) =>
    match readMode r with
    | .error f => .error f
    | .ok (mode, r) => readConfigTail { mode := mode } r

/-- Reads a configuration from an object, behind its brace. -/
def readConfigObject (s : Bytes) : Read Config :=
  match foldMembers configStep {} true s with
  | .error f => .error f
  | .ok (d, r) =>
    match d.mode with
    | none => refuse (.missingField "mode") r
    | some mode => .ok (d.complete mode, r)

/-- Reads a configuration. -/
def readConfig (s : Bytes) : Read Config :=
  match skipBlanks s with
  | [] => .error (.next .endOfValue [])
  | b :: r =>
    if b = openBrace then readConfigObject r
    else if b = openBracket then readConfigList r
    else .error (wrongType configName (b :: r))

end Lineage.Session

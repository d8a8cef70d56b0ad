import Lineage.Proofs.Graph.QueryTokens

/-!
# Queries as steps

A query takes some steps, each of which begins with a word of its own: `CREATE` a path, `MATCH` some
nodes, `SET` some properties, or count the rows `WITH` a name (`Step`).  `readQuery?` reads them.

The query of a batch is read as the steps of its operations in order, with a count of the rows
between two operations (`readQuery?_render`).  No string of an operation changes which steps there
are.
-/

namespace Lineage.Graph.Cypher

open Lineage.Json (Bytes printString)
open Lineage.Json.Grammar (utf8 utf8_append)

/-! ## Steps -/

/-- The value of a property. -/
inductive Value where
  /-- A number. -/
  | number (n : Nat)
  /-- A string. -/
  | text (t : String)
  deriving DecidableEq, Repr

namespace Value

/-- The number that a value is. -/
def number? : Value → Option Nat
  | .number n => some n
  | .text _ => none

/-- The string that a value is. -/
def text? : Value → Option String
  | .text t => some t
  | .number _ => none

/-- The process number that a value is. -/
def word? : Value → Option UInt32
  | .number n => if n < UInt32.size then some (UInt32.ofNat n) else none
  | .text _ => none

@[simp] theorem word?_toNat (w : UInt32) : (number w.toNat).word? = some w := by
  rw [word?, if_pos w.toNat_lt_size, UInt32.ofNat_toNat]

end Value

/-- Properties with their values. -/
abbrev Properties := List (String × Value)

/-- A pattern of a node. -/
structure NodePattern where
  /-- The name of the node, if it has one. -/
  name : Option String
  /-- The label that the node bears, if one is asked for. -/
  label : Option String
  /-- The properties that the node has, among others. -/
  properties : Properties
  deriving DecidableEq, Repr

/-- A pattern of a path. -/
inductive Path where
  /-- A node by itself. -/
  | node (p : NodePattern)
  /-- An edge of a kind between two nodes. -/
  | edge (src : NodePattern) (kind : String) (properties : Properties) (dst : NodePattern)
  deriving DecidableEq, Repr

/-- A value for a property of a node that has a name. -/
structure Assignment where
  /-- The name of the node. -/
  name : String
  /-- The property. -/
  property : String
  /-- Its new value. -/
  value : Value
  deriving DecidableEq, Repr

/-- A step of a query. -/
inductive Step where
  /-- Makes a path. -/
  | create (path : Path)
  /-- Finds nodes that are as their patterns say. -/
  | find (nodes : List NodePattern)
  /-- Sets properties. -/
  | set (assignments : List Assignment)
  /-- Counts the rows under a name. -/
  | count (name : String)
  deriving DecidableEq, Repr

/-! ## Reading steps -/

/-- The value that a token stands for. -/
def Token.value? : Token → Option Value
  | .number n => some (.number n)
  | .text t => some (.text t)
  | .word _ | .mark _ => none

/-- Reads properties up to the brace that closes them. -/
def readProperties : List Token → Option (Properties × List Token)
  | .word key :: .mark ':' :: t :: .mark c :: ts =>
    if c = '\x7d' then t.value?.map fun v => ([(key, v)], ts)
    else if c = ',' then
      match t.value?, readProperties ts with
      | some v, some (properties, ts) => some ((key, v) :: properties, ts)
      | _, _ => none
    else none
  | _ => none

/-- Reads a name, if there is one. -/
def readName : List Token → Option String × List Token
  | .word w :: ts => (some w, ts)
  | ts => (none, ts)

/-- Reads a label behind its colon, if there is one. -/
def readLabel : List Token → Option String × List Token
  | .mark ':' :: .word w :: ts => (some w, ts)
  | ts => (none, ts)

/-- The pattern of a node that some tokens are. -/
def readNode? : List Token → Option NodePattern
  | .mark '(' :: ts =>
    let (name, ts) := readName ts
    let (label, ts) := readLabel ts
    match ts with
    | [.mark ')'] => some ⟨name, label, []⟩
    | .mark '\x7b' :: ts =>
      match readProperties ts with
      | some (properties, [.mark ')']) => some ⟨name, label, properties⟩
      | _ => none
    | _ => none
  | _ => none

/-- The tokens cut behind every closing parenthesis.  Each pattern of a node ends with one, and no
other stands in it. -/
def cutNodes : List Token → List (List Token)
  | [] => []
  | t :: ts =>
    if t = .mark ')' then [t] :: cutNodes ts
    else
      match cutNodes ts with
      | [] => [[t]]
      | node :: nodes => (t :: node) :: nodes

/-- The pattern of a path that some tokens are. -/
def readPath? (ts : List Token) : Option Path :=
  match cutNodes ts with
  | [node] => (readNode? node).map .node
  | [src, .mark '-' :: .mark '[' :: .mark ':' :: .word kind :: .mark '\x7b' :: ts] =>
    match readNode? src, readProperties ts with
    | some src, some (properties, .mark ']' :: .mark '-' :: .mark '>' :: dst) =>
      (readNode? dst).map (.edge src kind properties)
    | _, _ => none
  | _ => none

/-- The pattern of a node behind a comma. -/
def readNextNode? : List Token → Option NodePattern
  | .mark ',' :: ts => readNode? ts
  | _ => none

/-- The patterns of nodes that some tokens are. -/
def readNodes? (ts : List Token) : Option (List NodePattern) :=
  match cutNodes ts with
  | [] => none
  | node :: nodes =>
    match readNode? node, nodes.mapM readNextNode? with
    | some p, some ps => some (p :: ps)
    | _, _ => none

/-- The assignments that some tokens are. -/
def readAssignments? : List Token → Option (List Assignment)
  | [.word name, .mark '.', .word property, .mark '=', t] =>
      t.value?.map fun v => [⟨name, property, v⟩]
  | .word name :: .mark '.' :: .word property :: .mark '=' :: t :: .mark ',' :: ts =>
    match t.value?, readAssignments? ts with
    | some v, some assignments => some (⟨name, property, v⟩ :: assignments)
    | _, _ => none
  | _ => none

/-- The step that some tokens are. -/
def readStep? : List Token → Option Step
  | .word "CREATE" :: ts => (readPath? ts).map .create
  | .word "MATCH" :: ts => (readNodes? ts).map .find
  | .word "SET" :: ts => (readAssignments? ts).map .set
  | [.word "WITH", .word "count", .mark '(', .mark '*', .mark ')', .word "AS", .word name] =>
    some (.count name)
  | _ => none

/-- Whether a token begins a step. -/
def Token.beginsStep : Token → Bool
  | .word w => w ∈ ["CREATE", "MATCH", "SET", "WITH"]
  | _ => false

/-- The tokens in front of the first step, and those of each step. -/
def cutSteps : List Token → List Token × List (List Token)
  | [] => ([], [])
  | t :: ts =>
    if t.beginsStep then ([], (t :: (cutSteps ts).1) :: (cutSteps ts).2)
    else (t :: (cutSteps ts).1, (cutSteps ts).2)

/-- The steps that some tokens are. -/
def readSteps? (ts : List Token) : Option (List Step) :=
  match cutSteps ts with
  | ([], steps) => steps.mapM readStep?
  | _ => none

/-- The steps of a query. -/
def readQuery? (s : Bytes) : Option (List Step) := (tokens? s).bind readSteps?

theorem cutSteps_append (ts : List Token) {ts' : List Token} (h : (cutSteps ts').1 = []) :
    cutSteps (ts ++ ts') = ((cutSteps ts).1, (cutSteps ts).2 ++ (cutSteps ts').2) := by
  induction ts with
  | nil => exact Prod.ext h rfl
  | cons t ts ih =>
      rw [List.cons_append, cutSteps, cutSteps, ih]
      split <;> rfl

/-- Steps are read one after the other. -/
theorem readSteps?_append {ts ts' : List Token} {steps steps' : List Step}
    (h : readSteps? ts = some steps) (h' : readSteps? ts' = some steps') :
    readSteps? (ts ++ ts') = some (steps ++ steps') := by
  unfold readSteps? at h h'
  split at h
  next parts hparts =>
    split at h'
    next parts' hparts' =>
      have hfront : (cutSteps ts').1 = [] := by rw [hparts']
      rw [readSteps?, cutSteps_append ts hfront, hparts, hparts']
      dsimp only
      rw [List.mapM_append, h, h']
      rfl
    next => cases h'
  next => cases h

/-! ## The steps of a batch -/

/-- The pattern of a process that has a name. -/
def process (name : String) (id : NodeId) : NodePattern :=
  ⟨some name, some "Process", [("db_id", .number id)]⟩

/-- The pattern of a node that was found before. -/
def found (name : String) : NodePattern := ⟨some name, none, []⟩

/-- The steps of an operation. -/
def stepsOf : Op → List Step
  | .createNode id uuid pid cmdline =>
    [.create (.node ⟨none, some "Process",
      [("db_id", .number id), ("uuid", .text uuid), ("pid", .number pid.toNat),
        ("cmdline", .text cmdline)]⟩)]
  | .createRel src dst cls =>
    [.find [process "a" src, process "b" dst],
      .create (.edge (found "a") "INF" [("class", .text cls.name)] (found "b"))]
  | .updateNode id pid cmdline =>
    [.find [process "p" id], .set [⟨"p", "pid", .number pid.toNat⟩,
      ⟨"p", "cmdline", .text cmdline⟩]]

/-- The steps of a batch. -/
def stepsOfBatch (ops : List Op) : List Step := [Step.count "_"].intercalate (ops.map stepsOf)

open Piece (space word mark number text)

/-- The pieces of a property behind another one. -/
def nextKey (key : String) : List Piece := [mark ',', space, word key, mark ':', space]

/-- The pieces of a pattern of a process. -/
def processPieces (name : String) (id : NodeId) : List Piece :=
  [mark '('] ++ [word name] ++ [mark ':', word "Process", space, mark '\x7b',
    word "db_id", mark ':', space] ++
    [number id] ++ [mark '\x7d', mark ')']

/-- The pieces of the clause of an operation. -/
def clausePieces : Op → List Piece
  | .createNode id uuid pid cmdline =>
    [word "CREATE", space, mark '(', mark ':', word "Process", space, mark '\x7b',
      word "db_id", mark ':',
        space] ++ [number id] ++
      nextKey "uuid" ++ [text uuid] ++ nextKey "pid" ++ [number pid.toNat] ++
      nextKey "cmdline" ++ [text cmdline] ++ [mark '\x7d', mark ')']
  | .createRel src dst cls =>
    [word "MATCH", space] ++ processPieces "a" src ++ [mark ',', space] ++ processPieces "b" dst ++
      [space, word "CREATE", space, mark '(', word "a", mark ')', mark '-', mark '[',
        mark ':', word "INF", space, mark '\x7b', word "class", mark ':', space] ++
          [text cls.name] ++
      [mark '\x7d', mark ']', mark '-', mark '>', mark '(', word "b", mark ')']
  | .updateNode id pid cmdline =>
    [word "MATCH", space] ++ processPieces "p" id ++
      [space, word "SET", space, word "p", mark '.', word "pid", space, mark '=', space] ++
      [number pid.toNat] ++
      [mark ',', space, word "p", mark '.', word "cmdline", space, mark '=', space] ++
      [text cmdline]

/-- The pieces of the separator. -/
def separatorPieces : List Piece :=
  [.blank 0x0a, word "WITH", space, word "count", mark '(', mark '*', mark ')',
    space, word "AS", space, word "_", .blank 0x0a]

theorem bytes_processPieces (name : String) (id : NodeId) :
    (processPieces name id).flatMap Piece.bytes = utf8 (matchById name id) := by
  unfold processPieces matchById
  simp only [utf8_append, List.flatMap_append, List.flatMap_singleton, List.append_assoc]
  iterate 4 refine congr (congrArg _ rfl) ?_
  rfl

/-- The pieces make up the clause. -/
theorem bytes_clausePieces (op : Op) :
    (clausePieces op).flatMap Piece.bytes = utf8 (clause op) := by
  unfold clausePieces clause
  cases op with
  | createNode id uuid pid cmdline =>
      simp only [utf8_append, List.flatMap_append, List.flatMap_singleton, List.append_assoc]
      iterate 8 refine congr (congrArg _ rfl) ?_
      rfl
  | createRel src dst cls =>
      simp only [utf8_append, List.flatMap_append, List.flatMap_singleton, List.append_assoc,
        bytes_processPieces]
      iterate 6 refine congr (congrArg _ rfl) ?_
      rfl
  | updateNode id pid cmdline =>
      simp only [utf8_append, List.flatMap_append, List.flatMap_singleton, List.append_assoc,
        bytes_processPieces]
      iterate 5 refine congr (congrArg _ rfl) ?_
      rfl

theorem parted_clausePieces (op : Op) : Piece.parted (clausePieces op) = true := by
  cases op <;> rfl

/-- The tokens of the clause of an operation. -/
def clauseTokens (op : Op) : List Token := (clausePieces op).filterMap Piece.token?

/-- The tokens of the separator. -/
def separatorTokens : List Token := separatorPieces.filterMap Piece.token?

theorem tokens?_clause (op : Op) (r : Bytes) :
    tokens? (utf8 (clause op) ++ r) = (tokens? r).map (clauseTokens op ++ ·) := by
  rw [← bytes_clausePieces]
  exact tokens?_pieces (parted_clausePieces op) r

theorem tokens?_separator (r : Bytes) :
    tokens? (utf8 separator ++ r) = (tokens? r).map (separatorTokens ++ ·) := by
  have hbytes : separatorPieces.flatMap Piece.bytes = utf8 separator := rfl
  rw [← hbytes]
  exact tokens?_pieces rfl r

theorem readSteps?_clause (op : Op) : readSteps? (clauseTokens op) = some (stepsOf op) := by
  cases op <;> rfl

theorem readSteps?_separator : readSteps? separatorTokens = some [.count "_"] := rfl

theorem readQuery?_nil : readQuery? [] = some [] := by
  rw [readQuery?, tokens?_nil]
  rfl

/-- What is read in front of a query comes in front of its steps. -/
theorem readQuery?_append {s r : Bytes} {ts : List Token} {steps steps' : List Step}
    (htokens : tokens? (s ++ r) = (tokens? r).map (ts ++ ·)) (h : readSteps? ts = some steps)
    (hr : readQuery? r = some steps') : readQuery? (s ++ r) = some (steps ++ steps') := by
  obtain ⟨ts', hts', hsteps'⟩ := Option.bind_eq_some_iff.mp hr
  rw [readQuery?, htokens, hts']
  exact readSteps?_append h hsteps'

/-- A clause is read as the steps of its operation. -/
theorem readQuery?_clause (op : Op) : readQuery? (utf8 (clause op)) = some (stepsOf op) := by
  have hread := readQuery?_append (tokens?_clause op []) (readSteps?_clause op) readQuery?_nil
  rwa [List.append_nil, List.append_nil] at hread

/-- The query of a batch is read as the steps of the batch. -/
theorem readQuery?_render (ops : List Op) :
    readQuery? (utf8 (render ops)) = some (stepsOfBatch ops) := by
  induction ops with
  | nil => exact readQuery?_nil
  | cons op ops ih =>
      cases ops with
      | nil =>
          rw [render, List.map_singleton, String.intercalate_singleton,
            stepsOfBatch, List.map_singleton, List.intercalate_singleton]
          exact readQuery?_clause op
      | cons op' ops =>
          have hrest := readQuery?_append (tokens?_separator _) readSteps?_separator ih
          have hread := readQuery?_append (tokens?_clause op _) (readSteps?_clause op) hrest
          have htext : render (op :: op' :: ops) =
              clause op ++ (separator ++ render (op' :: ops)) :=
            (String.intercalate_cons_cons ..).trans (String.append_assoc ..)
          rw [htext, utf8_append, utf8_append, hread]
          rfl

end Lineage.Graph.Cypher

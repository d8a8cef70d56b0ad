import Lineage.Proofs.Graph.MissingNodes
import Lineage.Proofs.Graph.QueryTokens

/-!
# What the store behind a database says and hears

What was `Asked` is a query with the answer to it, and a `Dialogue` leads from one state of a
database to another by some of them.  `Course` lists the courses that a call with a batch can take:
what is asked, and the result.  There is no other (`execute_course`), whatever the answers are.

So a batch is written when it needs no node from outside, or when the check of those that it needs
was answered with `-1` just before, and not otherwise (`writes_confirmed`).
-/

namespace Lineage.Graph

open Lineage.Graph.Cypher (externalRefs missingCheck render)
open Lineage.Json.Grammar (utf8 utf8_append)
open Lineage.Text (Spells trim)

/-! ## Dialogues -/

/-- A query and the answer to it. -/
structure Asked where
  /-- The query. -/
  query : Query
  /-- The answer. -/
  answer : Answer

/-- A database is asked some queries and gives some answers, which leads it to another state. -/
inductive Dialogue : Database → List Asked → Database → Prop
  /-- Nothing is said. -/
  | done (db : Database) : Dialogue db [] db
  /-- A query and its answer, and what follows. -/
  | ask {db db' : Database} {asked : List Asked} (q : Query) :
    Dialogue (db.ask q).2 asked db' → Dialogue db (⟨q, (db.ask q).1⟩ :: asked) db'

namespace Database

variable {db db' : Database} {asked : List Asked}

/-- A query that reaches the server is answered by the script and kept. -/
theorem ask_eq (h : db.outage = none) (q : Query) :
    db.ask q =
      ((nextAnswer db.answers).1,
        { db with answers := (nextAnswer db.answers).2, received := q :: db.received }) := by
  simp [ask, h]

end Database

namespace Dialogue

variable {db db' : Database} {asked : List Asked}

theorem outage_eq (h : Dialogue db asked db') : db'.outage = db.outage := by
  induction h with
  | done => rfl
  | @ask db _ _ q _ ih =>
      rw [ih, Database.ask]
      split <;> rfl

/-- A server that is reached has got the queries in order. -/
theorem queries_eq (h : Dialogue db asked db') (hreached : db.outage = none) :
    db'.queries = db.queries ++ asked.map Asked.query := by
  induction h with
  | done => exact (List.append_nil _).symm
  | @ask db _ _ q h ih =>
      rw [Database.ask_eq hreached] at ih
      rw [ih hreached, List.map_cons, Database.queries, List.reverse_cons, List.append_assoc]
      rfl

end Dialogue

/-! ## One call -/

namespace Remote

/-- The query that checks the nodes which a batch needs from outside. -/
def checkQuery (graph : String) (ops : List Op) : Query :=
  ⟨true, graph, missingCheck (externalRefs ops)⟩

/-- The query that writes a batch. -/
def writeQuery (graph : String) (ops : List Op) : Query := ⟨false, graph, render ops⟩

/-- What the answer to the query that writes a batch makes of the call. -/
def writeResult (batch : Nat) : Answer → Except StoreError Unit
  | .ok _ => .ok ()
  | .error reason => .error (.transaction batch reason)

/-- The courses that a call with a batch can take, for a graph and the number of the batch: what is
asked, and the result. -/
inductive Course (graph : String) (number : Nat) (ops : List Op) :
    List Asked → Except StoreError Unit → Prop
  /-- There is nothing to do. -/
  | empty : ops = [] → Course graph number ops [] (.ok ())
  /-- A batch that needs no node from outside is written. -/
  | alone (answer : Answer) : ops ≠ [] → externalRefs ops = [] →
    Course graph number ops [⟨writeQuery graph ops, answer⟩] (writeResult number answer)
  /-- The check fails. -/
  | unanswered (reason : String) : ops ≠ [] → externalRefs ops ≠ [] →
    Course graph number ops [⟨checkQuery graph ops, .error reason⟩]
      (.error (.transaction number reason))
  /-- The check is answered with anything but `-1`. -/
  | unconfirmed (reply : String) (e : StoreError) : ops ≠ [] → externalRefs ops ≠ [] →
    ¬ Spells (trim reply.toList) (-1) →
      (∀ n reason, e = .transaction n reason → n = number) →
      Course graph number ops [⟨checkQuery graph ops, .ok reply⟩] (.error e)
  /-- The check is answered with `-1`, and the batch is written. -/
  | confirmed (reply : String) (answer : Answer) : ops ≠ [] → externalRefs ops ≠ [] →
    Spells (trim reply.toList) (-1) →
      Course graph number ops
        [⟨checkQuery graph ops, .ok reply⟩, ⟨writeQuery graph ops, answer⟩]
        (writeResult number answer)

/-- All are there exactly if the reply, without the blanks around it, is the integer `-1`. -/
theorem verdict_eq_present_iff (reply : String) :
    verdict reply = .present ↔ Spells (trim reply.toList) (-1) := by
  have hread : verdict reply = .present ↔ Text.signed? (trim reply.toList) = some (-1) := by
    unfold verdict
    split
    next hnone => simp [hnone]
    next n hsome =>
      rw [hsome, Option.some.injEq]
      constructor
      · intro h
        split at h
        next hn => exact hn
        next => split at h <;> cases h
      · rintro rfl
        rfl
  rw [hread, Text.signed?_eq_some_iff]
  exact and_iff_left (by decide)

theorem write_eq (r : Remote) (number : Nat) (ops : List Op) :
    r.write number ops =
      (writeResult number (r.ask false (render ops)).1, (r.ask false (render ops)).2) := by
  unfold write
  split <;> rename_i heq <;> rw [heq] <;> rfl

/-- The check of some nodes fails, or it is answered and the reply decides. -/
theorem ensurePresent_cases (r : Remote) (number : Nat) {ids : List NodeId} (hids : ids ≠ [])
    {answer : Answer} {after : Remote} (hask : r.ask true (missingCheck ids) = (answer, after)) :
    (∃ reason, answer = .error reason ∧
      r.ensurePresent number ids = (.error (.transaction number reason), after)) ∨
    (∃ reply e, answer = .ok reply ∧ ¬ Spells (trim reply.toList) (-1) ∧
      (∀ n reason, e = .transaction n reason → n = number) ∧
        r.ensurePresent number ids = (.error e, after)) ∨
    ∃ reply, answer = .ok reply ∧ Spells (trim reply.toList) (-1) ∧
      r.ensurePresent number ids = (.ok (), after) := by
  unfold ensurePresent
  rw [if_neg (by simpa using hids), hask]
  cases answer with
  | error reason => exact .inl ⟨reason, rfl, rfl⟩
  | ok reply =>
      have hverdict := verdict_eq_present_iff reply
      dsimp only
      cases hv : verdict reply with
      | present => exact .inr (.inr ⟨reply, rfl, hverdict.mp hv, rfl⟩)
      | missing id =>
          rw [hv] at hverdict
          refine .inr (.inl ⟨reply, .unknownNode id, rfl, fun h => ?_, fun _ _ h => ?_, rfl⟩)
          · cases hverdict.mpr h
          · cases h
      | unclear =>
          rw [hv] at hverdict
          refine .inr (.inl ⟨reply, .transaction number _, rfl, fun h => ?_,
            fun _ _ h => ?_, rfl⟩)
          · cases hverdict.mpr h
          · cases h
            rfl

/-- A call takes one of the courses.  It leaves the graph alone and counts its batch, unless that is
empty. -/
theorem execute_course (r : Remote) (ops : List Op) :
    ∃ asked db, Dialogue r.database asked db ∧
      Course r.graph r.batches ops asked (r.execute ops).1 ∧
      (r.execute ops).2 =
        { r with database := db, batches := r.batches + if ops = [] then 0 else 1 } := by
  by_cases hops : ops = []
  · subst hops
    exact ⟨[], r.database, .done _, .empty rfl, rfl⟩
  rw [execute_eq hops, if_neg hops]
  by_cases hrefs : externalRefs ops = []
  · have hunchecked : ensurePresent { r with batches := r.batches + 1 } r.batches
        (externalRefs ops) =
        (.ok (), { r with batches := r.batches + 1 }) := by
      rw [hrefs]
      rfl
    rw [hunchecked]
    dsimp only
    rw [write_eq]
    exact ⟨_, _, .ask _ (.done _), .alone _ hops hrefs, rfl⟩
  · rcases ensurePresent_cases { r with batches := r.batches + 1 } r.batches hrefs rfl with
      ⟨reason, hanswer, heq⟩ | ⟨reply, e, hanswer, hreply, hnumber, heq⟩ |
        ⟨reply, hanswer, hreply, heq⟩
    all_goals rw [heq]
    · exact ⟨_, _, .ask _ (.done _), hanswer ▸ .unanswered reason hops hrefs, rfl⟩
    · exact ⟨_, _, .ask _ (.done _),
        hanswer ▸ .unconfirmed reply e hops hrefs hreply hnumber, rfl⟩
    · dsimp only
      rw [write_eq]
      exact ⟨_, _, .ask _ (.ask _ (.done _)),
        hanswer ▸ .confirmed reply _ hops hrefs hreply, rfl⟩

/-! ## Many calls -/

/-- A new store for a graph, behind a server with a script of answers. -/
def new (graph : String) (script : List Answer) : Remote :=
  { graph, database := { answers := script } }

/-- The store behind some calls. -/
def after (r : Remote) (calls : List (List Op)) : Remote :=
  calls.foldl (fun r ops => (r.execute ops).2) r

theorem after_cons (r : Remote) (ops : List Op) (calls : List (List Op)) :
    r.after (ops :: calls) = (r.execute ops).2.after calls := rfl

/-- Calls leave the graph alone and count the batches that hold an operation, and a server that was
reached is reached again. -/
theorem after_eq (r : Remote) (calls : List (List Op)) :
    (r.after calls).graph = r.graph ∧ (r.after calls).database.outage = r.database.outage ∧
      (r.after calls).batches = r.batches + (calls.filter (· ≠ [])).length := by
  induction calls generalizing r with
  | nil => exact ⟨rfl, rfl, rfl⟩
  | cons ops calls ih =>
      obtain ⟨_, db, hdialogue, _, hafter⟩ := r.execute_course ops
      obtain ⟨hgraph, houtage, hbatches⟩ := ih (r.execute ops).2
      rw [after_cons, hgraph, houtage, hbatches, hafter]
      refine ⟨rfl, hdialogue.outage_eq, ?_⟩
      by_cases hops : ops = []
      · simp [hops]
      · simp [hops, Nat.add_assoc, Nat.add_comm 1]

namespace Course

variable {graph : String} {number : Nat} {ops : List Op} {asked : List Asked}
  {result : Except StoreError Unit}

theorem checkQuery_ne_writeQuery (graph : String) (ops : List Op) :
    checkQuery graph ops ≠ writeQuery graph ops := by
  intro h
  cases congrArg Query.readOnly h

/-- What is asked is the check or the query that writes. -/
theorem query_cases (h : Course graph number ops asked result) {a : Asked} (ha : a ∈ asked) :
    a.query = checkQuery graph ops ∨ a.query = writeQuery graph ops := by
  cases h with
  | empty => cases ha
  | alone => exact .inr (List.mem_singleton.mp ha ▸ rfl)
  | unanswered | unconfirmed => exact .inl (List.mem_singleton.mp ha ▸ rfl)
  | confirmed =>
      rcases List.mem_cons.mp ha with rfl | ha
      · exact .inl rfl
      · exact .inr (List.mem_singleton.mp ha ▸ rfl)

/-- The batch is written if there is nothing to check, or if the check comes first and is answered
with `-1`. -/
theorem written_iff (h : Course graph number ops asked result) :
    (∃ answer, ⟨writeQuery graph ops, answer⟩ ∈ asked) ↔
      ops ≠ [] ∧ (externalRefs ops = [] ∨
        ∃ reply, asked.head? = some ⟨checkQuery graph ops, .ok reply⟩ ∧
          Spells (trim reply.toList) (-1)) := by
  have hne := checkQuery_ne_writeQuery graph ops
  cases h with
  | empty hops => simp [hops]
  | alone answer hops hrefs => simp [hops, hrefs]
  | unanswered reason hops hrefs => simp [hops, hrefs, hne.symm]
  | unconfirmed reply e hops hrefs hreply => simp [hops, hrefs, hne.symm, hreply]
  | confirmed reply answer hops hrefs hreply => simp [hops, hrefs, hne.symm, hreply]

/-- The query that writes comes last, and just behind the check if there is one. -/
theorem eq_of_written (h : Course graph number ops asked result) {answer : Answer}
    (ha : ⟨writeQuery graph ops, answer⟩ ∈ asked) :
    (externalRefs ops = [] ∧ asked = [⟨writeQuery graph ops, answer⟩]) ∨
      ∃ reply, asked = [⟨checkQuery graph ops, .ok reply⟩,
        ⟨writeQuery graph ops, answer⟩] := by
  have hne := checkQuery_ne_writeQuery graph ops
  cases h with
  | empty => cases ha
  | alone answer' _ hrefs => exact .inl ⟨hrefs, by simpa [eq_comm] using ha⟩
  | unanswered | unconfirmed => simp [hne.symm] at ha
  | confirmed reply answer' => exact .inr ⟨reply, by simpa [hne, eq_comm] using ha⟩

/-- A batch that is not written is refused, unless it is empty, and what was asked may only read. -/
theorem refused (h : Course graph number ops asked result) (hops : ops ≠ [])
    (hunwritten : ¬ ∃ answer, ⟨writeQuery graph ops, answer⟩ ∈ asked) :
    (∃ e, result = .error e) ∧ ∀ a ∈ asked, a.query.readOnly = true := by
  refine ⟨?_, fun a ha => ?_⟩
  · cases h with
    | empty hempty => exact absurd hempty hops
    | alone answer => exact absurd ⟨answer, List.mem_singleton_self _⟩ hunwritten
    | unanswered => exact ⟨_, rfl⟩
    | unconfirmed => exact ⟨_, rfl⟩
    | confirmed _ answer =>
        exact absurd ⟨answer, .tail _ (List.mem_singleton_self _)⟩ hunwritten
  · rcases h.query_cases ha with hcheck | hwrite
    · rw [hcheck]
      rfl
    · exact absurd ⟨a.answer, hwrite ▸ ha⟩ hunwritten

/-- A call succeeds if there is nothing to do, or if the server takes the batch. -/
theorem ok_iff (h : Course graph number ops asked result) :
    result = .ok () ↔
      ops = [] ∨ ∃ reply, ⟨writeQuery graph ops, .ok reply⟩ ∈ asked := by
  have hne := checkQuery_ne_writeQuery graph ops
  cases h with
  | empty hops => simp [hops]
  | alone answer hops => cases answer <;> simp [hops, writeResult]
  | unanswered reason hops => simp [hops]
  | unconfirmed reply e hops => simp [hops, hne.symm]
  | confirmed reply answer hops => cases answer <;> simp [hops, hne.symm, writeResult]

/-- A failure of a batch names its number. -/
theorem number_eq (h : Course graph number ops asked result) {n : Nat} {reason : String}
    (hresult : result = .error (.transaction n reason)) : n = number := by
  cases h with
  | empty => cases hresult
  | alone answer | confirmed _ answer => cases answer <;> cases hresult; rfl
  | unanswered => cases hresult; rfl
  | unconfirmed _ e _ _ _ hnumber => exact hnumber n reason (Except.error.inj hresult)

end Course

end Remote

/-! ## The nodes that a check lists -/

namespace Cypher

open Piece (space word mark number)

/-- The number that a token is. -/
def Token.number? : Token → Option Nat
  | .number n => some n
  | _ => none

/-- The ids that a query lists up to its first closing bracket. -/
def listedIds? (text : String) : Option (List NodeId) :=
  (tokens? (utf8 text)).map fun ts => (ts.takeWhile (· ≠ .mark ']')).filterMap Token.number?

/-- The pieces of some ids with commas between them. -/
def idPieces : List NodeId → List Piece
  | [] => []
  | [id] => [number id]
  | id :: ids => number id :: mark ',' :: space :: idPieces ids

/-- The pieces of a check behind the ids. -/
def checkPieces : List Piece :=
  [mark ']', space, word "AS", space, word "id", space, word "OPTIONAL", space,
    word "MATCH", space, mark '(', word "p", mark ':', word "Process", space, mark '\x7b',
    word "db_id", mark ':', space, word "id", mark '\x7d', mark ')', space, word "WITH", space,
    word "id", mark ',', space, word "p", space, word "WHERE", space, word "p", space, word "IS",
    space, word "NULL", space, word "RETURN", space, word "coalesce", mark '(', word "min",
    mark '(', word "id", mark ')', mark ',', space, mark '-', number 1, mark ')']

theorem bytes_idPieces (ids : List NodeId) :
    (idPieces ids).flatMap Piece.bytes = utf8 (", ".intercalate (ids.map toString)) := by
  induction ids with
  | nil => rfl
  | cons id ids ih =>
      cases ids with
      | nil =>
          rw [List.map_singleton, String.intercalate_singleton]; exact List.flatMap_singleton ..
      | cons id' ids =>
          rw [List.map_cons, List.map_cons, String.intercalate_cons_cons, utf8_append, utf8_append,
            List.append_assoc, ← List.map_cons, ← ih]
          rfl

theorem parted_idPieces (ids : List NodeId) :
    Piece.parted (idPieces ids ++ checkPieces) = true := by
  induction ids with
  | nil => rfl
  | cons id ids ih =>
      cases ids with
      | nil => rfl
      | cons id' ids => exact ih

theorem listed_idPieces (ids : List NodeId) :
    (((idPieces ids ++ checkPieces).filterMap Piece.token?).takeWhile
      (· ≠ .mark ']')).filterMap Token.number? = ids := by
  induction ids with
  | nil => rfl
  | cons id ids ih =>
      cases ids with
      | nil => rfl
      | cons id' ids => exact congrArg (id :: ·) ih

/-- The check of some nodes lists exactly these. -/
theorem listedIds?_missingCheck (ids : List NodeId) : listedIds? (missingCheck ids) = some ids := by
  have hbytes : utf8 (missingCheck ids) =
      ([word "UNWIND", space, mark '['] ++ (idPieces ids ++ checkPieces)).flatMap Piece.bytes := by
    unfold missingCheck
    simp only [utf8_append, List.flatMap_append, bytes_idPieces, List.append_assoc]
    exact congr (congrArg _ rfl) (congrArg _ rfl)
  have hparted :
      Piece.parted ([word "UNWIND", space, mark '['] ++ (idPieces ids ++ checkPieces)) = true :=
    parted_idPieces ids
  have htokens := tokens?_pieces hparted []
  rw [List.append_nil, tokens?_nil, ← hbytes] at htokens
  rw [listedIds?, htokens, Option.map_some, Option.map_some, List.append_nil]
  exact congrArg some (listed_idPieces ids)

end Cypher

/-- Behind any calls and whatever the server answers, a batch is written exactly if it holds an
operation, and it either needs no node from outside, or the check of those that it needs came first
and was answered with `-1`.  The check lists these nodes, and nothing stands between it and the
query that writes.  A batch that holds an operation and is not written is refused.  A call succeeds
exactly if there is nothing to write, or if the server takes the batch, and a failure of a batch is
numbered by the calls before that had something to write. -/
theorem Remote.writes_confirmed (graph : String) (script : List Answer) (calls : List (List Op))
    (batch : List Op) :
    let r := (new graph script).after calls
    let result := (r.execute batch).1
    let check := checkQuery graph batch
    let write := writeQuery graph batch
    check.readOnly = true ∧ Cypher.listedIds? check.text = some (externalRefs batch) ∧
    ∃ asked, Dialogue r.database asked (r.execute batch).2.database ∧
      (r.execute batch).2.database.queries = r.database.queries ++ asked.map Asked.query ∧
      (∀ a ∈ asked, a.query = check ∨ a.query = write) ∧
      ((∃ answer, ⟨write, answer⟩ ∈ asked) ↔
        batch ≠ [] ∧ (externalRefs batch = [] ∨
          ∃ reply, asked.head? = some ⟨check, .ok reply⟩ ∧
            Spells (trim reply.toList) (-1))) ∧
      (∀ answer, ⟨write, answer⟩ ∈ asked →
        (externalRefs batch = [] ∧ asked = [⟨write, answer⟩]) ∨
          ∃ reply, asked = [⟨check, .ok reply⟩, ⟨write, answer⟩]) ∧
      (batch ≠ [] → (¬ ∃ answer, ⟨write, answer⟩ ∈ asked) →
        (∃ e, result = .error e) ∧ ∀ a ∈ asked, a.query.readOnly = true) ∧
      (result = .ok () ↔ batch = [] ∨ ∃ reply, ⟨write, .ok reply⟩ ∈ asked) ∧
      ∀ n reason, result = .error (.transaction n reason) →
        n = (calls.filter (· ≠ [])).length := by
  intro r result check write
  obtain ⟨hgraph, houtage, hbatches⟩ := (new graph script).after_eq calls
  obtain ⟨asked, db, hdialogue, hcourse, hafter⟩ := r.execute_course batch
  have hnumber : r.batches = (calls.filter (· ≠ [])).length := hbatches.trans (Nat.zero_add _)
  have hdb : (r.execute batch).2.database = db := by rw [hafter]
  rw [hgraph, hnumber] at hcourse
  refine ⟨rfl, Cypher.listedIds?_missingCheck _, asked, ?_⟩
  rw [hdb]
  exact ⟨hdialogue, hdialogue.queries_eq houtage, fun a ha => hcourse.query_cases ha,
    hcourse.written_iff, fun answer ha => hcourse.eq_of_written ha, hcourse.refused, hcourse.ok_iff,
    fun n reason hresult => hcourse.number_eq hresult⟩

/-- The first call has nothing to do, and the second one is refused for a node.  The third one is
confirmed by a reply with blanks around it and a zero too many, and then the server refuses the
batch. -/
theorem Remote.writes_confirmed_rejected :
    let calls : List (List Op) := [[], [.updateNode 5 1 "sh"]]
    let batch : List Op := [.createNode 6 "U6" 2 "ls", .createRel 5 6 .child]
    let r := (new "procgraph" [.ok "5", .ok " -01\n", .error "full"]).after calls
    externalRefs batch = [5] ∧ (r.execute batch).1 = .error (.transaction 1 "full") ∧
      1 = (calls.filter (· ≠ [])).length ∧
      ∃ reply answer, Dialogue r.database
        [⟨checkQuery "procgraph" batch, .ok reply⟩, ⟨writeQuery "procgraph" batch, answer⟩]
        (r.execute batch).2.database := by
  intro calls batch r
  obtain ⟨_, _, asked, hdialogue, hqueries, _, _, hlast, _, _, hnumber⟩ :=
    writes_confirmed "procgraph" [.ok "5", .ok " -01\n", .error "full"] calls batch
  have hresult : (r.execute batch).1 = .error (.transaction 1 "full") := by rfl
  have hasked : asked.map Asked.query =
      [checkQuery "procgraph" batch, writeQuery "procgraph" batch] := by
    refine List.append_cancel_left (hqueries.symm.trans ?_)
    rfl
  obtain ⟨a, rest, rfl, _, hrest⟩ := List.map_eq_cons_iff.mp hasked
  obtain ⟨⟨q, answer⟩, rest, rfl, hq, hnil⟩ := List.map_eq_cons_iff.mp hrest
  obtain rfl := List.map_eq_nil_iff.mp hnil
  obtain rfl : q = writeQuery "procgraph" batch := hq
  refine ⟨rfl, hresult, hnumber 1 "full" hresult, ?_⟩
  rcases hlast answer (.tail _ (List.mem_singleton_self _)) with ⟨halone, _⟩ | ⟨reply, heq⟩
  · cases halone
  · exact ⟨reply, answer, heq ▸ hdialogue⟩

end Lineage.Graph

import Lineage.Text.Quoted

/-!
# Databases

A database answers queries one after the other (`Database.ask`).  It is given by a script of answers
and keeps the queries it got.  When the script has run out, it answers as if there were no row.  A
database that cannot be reached gets no query and answers each with the reason.

The client sees an answer as one text, or as the text of an error.  A *reply* of the server has rows
with a single cell each.  No row, one row and several rows have texts of their own shape
(`Reply.answer`).
-/

namespace Lineage.Graph

/-- The one cell of a row. -/
inductive Cell where
  | integer (n : Int)
  | text (s : String)
  | boolean (b : Bool)
  | null
  deriving DecidableEq, Repr

/-- The text of a cell. -/
def Cell.show : Cell → String
  | .integer n => toString n
  | .text s => "\"" ++ s ++ "\""
  | .boolean b => toString b
  | .null => "None"

/-- A reply of the server. -/
inductive Reply where
  /-- The query failed. -/
  | failure (message : String)
  /-- The query gave some rows. -/
  | rows (cells : List Cell)
  deriving DecidableEq, Repr

/-- Rows with their numbers. -/
def numberedRows : Nat → List Cell → List String
  | _, [] => []
  | n, c :: cs => (toString n ++ ". " ++ c.show) :: numberedRows (n + 1) cs

/-- The text of some rows. -/
def rowsText : List Cell → String
  | [] => "No results returned."
  | [c] => c.show
  | cs => "\n".intercalate (numberedRows 1 cs)

/-- What goes wrong on the way to the server. -/
def transportError (message : String) : String :=
  "An error occurred while sending the request to Redis: " ++ message

/-- What the client sees: a text, or the text of an error. -/
abbrev Answer := Except String String

/-- What the client sees of a reply. -/
def Reply.answer : Reply → Answer
  | .failure message => .error ("Query execution failed: " ++ transportError message)
  | .rows cells => .ok (rowsText cells)

/-- A query as it was sent. -/
structure Query where
  /-- Whether it may only read. -/
  readOnly : Bool
  /-- The graph it is about. -/
  graph : String
  /-- Its text. -/
  text : String
  deriving DecidableEq, Repr

/-- A database. -/
structure Database where
  /-- Why it cannot be reached, if it cannot. -/
  outage : Option String := none
  /-- The answers to come. -/
  answers : List Answer := []
  /-- The queries it got, last one first. -/
  received : List Query := []

namespace Database

/-- The next answer and the answers behind it. -/
def nextAnswer : List Answer → Answer × List Answer
  | [] => ((Reply.rows []).answer, [])
  | answer :: answers => (answer, answers)

/-- Sends a query. -/
def ask (db : Database) (q : Query) : Answer × Database :=
  match db.outage with
  | some reason => (.error ("Failed to build client: " ++ transportError reason), db)
  | none =>
    let (answer, answers) := nextAnswer db.answers
    (answer, { db with answers := answers, received := q :: db.received })

/-- The queries it got, in order. -/
def queries (db : Database) : List Query := db.received.reverse

end Database

end Lineage.Graph

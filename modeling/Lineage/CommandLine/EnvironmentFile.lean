import Lineage.Text.Alphanumeric
import Lineage.Text.Blank

/-!
# Environment files

An environment file gives variables, one `NAME=value` after the other.  A value may stand in quotes,
and then it may go on over several lines.  In double quotes and outside quotes a backslash keeps the
character behind it, and `$NAME` or `${NAME}` stands for the value of a variable.  The character
behind a `$NAME` stands for itself.  What follows a blank and `#` is a comment.

A variable that has a value already keeps it.  The first line that breaks the rules ends the file,
and what stands before it counts.
-/

namespace Lineage.CommandLine

/-- Variables with their values, the one that counts in front. -/
abbrev Environment := List (String × String)

/-- Whether a variable is there. -/
def Environment.has (env : Environment) (name : String) : Bool := (env.lookup name).isSome

namespace EnvironmentFile

/-! ## Entries over several lines -/

/-- Where the end of a text lies. -/
inductive Place where
  /-- Outside quotes. -/
  | plain
  /-- Behind a blank. -/
  | blank
  /-- Behind a backslash outside quotes. -/
  | escape
  /-- In quotes of this kind. -/
  | quotes (mark : Char)
  /-- Behind a backslash in quotes of this kind. -/
  | quotedEscape (mark : Char)
  /-- In a comment. -/
  | comment
  deriving DecidableEq, Repr

/-- The place behind a character that opens something, or outside quotes. -/
def Place.opened (c : Char) : Place :=
  if c = '\\' then .escape else if c = '"' ∨ c = '\'' then .quotes c else .plain

/-- The place behind one more character. -/
def Place.next (c : Char) : Place → Place
  | .plain => if Text.isBlank c && c != '\n' && c != '\r' then .blank else opened c
  | .blank => if c = '#' then .comment else opened c
  | .escape => .plain
  | .quotes mark =>
    if c = '\\' then .quotedEscape mark else if c = mark then .plain else .quotes mark
  | .quotedEscape mark => .quotes mark
  | .comment => .comment

/-- Reads on to the end of a line.  Gives what belongs to the entry, last character first, the place
behind it and what follows. -/
def readLine : List Char → Place → List Char → List Char × Place × List Char
  | done, p, [] => (done, p, [])
  | done, p, c :: cs =>
    let q := p.next c
    if c = '\n' then
      if q = .comment then (done, q, cs) else (c :: done, q, cs)
    else if q = .comment then readLine done q cs
    else readLine (c :: done) q cs

theorem length_readLine_lt (done : List Char) (p : Place) (c : Char) (cs : List Char) :
    (readLine done p (c :: cs)).2.2.length < (c :: cs).length := by
  have h : ∀ (cs : List Char) (done : List Char) (p : Place),
      (readLine done p cs).2.2.length ≤ cs.length := by
    intro cs
    induction cs with
    | nil => intro done p; simp [readLine]
    | cons c cs ih =>
      intro done p
      simp only [readLine]
      split
      · split <;> simp
      · split
        · exact Nat.le_succ_of_le (ih _ _)
        · exact Nat.le_succ_of_le (ih _ _)
  simp only [readLine]
  split
  · split <;> simp
  · split
    · exact Nat.lt_succ_of_le (h _ _ _)
    · exact Nat.lt_succ_of_le (h _ _ _)

/-- Whether a text holds nothing but a comment, if anything. -/
def isCommentLine (cs : List Char) : Bool :=
  match cs.dropWhile Text.isBlank with
  | '#' :: _ => true
  | _ => false

/-- A line without its end. -/
def chomp : List Char → List Char
  | '\n' :: '\r' :: done => done.reverse
  | '\n' :: done => done.reverse
  | done => done.reverse

/-- The entries of a file, each with its lines.  One that is not closed at the end of the file is
missing, and the flag tells. -/
def entries (done : List Char) (p : Place) (s : List Char) : List (List Char) × Bool :=
  match s with
  | [] => ([], p == .plain)
  | c :: cs =>
    let line := readLine done p (c :: cs)
    if isCommentLine line.1.reverse then
      let (es, closed) := entries [] .plain line.2.2
      ([] :: es, closed)
    else
      match line.2.1 with
      | .plain | .comment =>
        let (es, closed) := entries [] .plain line.2.2
        (chomp line.1 :: es, closed)
      | q => entries line.1 q line.2.2
termination_by s.length
decreasing_by all_goals exact length_readLine_lt done p c cs

/-! ## One entry -/

/-- Whether a name may start with a character. -/
def startsName (c : Char) : Bool := c.isAlpha || c == '_'

/-- Whether a character may stand in a name. -/
def inName (c : Char) : Bool := c.isAlphanum || c == '_' || c == '.'

/-- Reads a name. -/
def readName? : List Char → Option (String × List Char)
  | [] => none
  | c :: cs =>
    if startsName c then
      some (String.ofList (c :: cs.takeWhile inName), cs.dropWhile inName)
    else none

/-- A text without the blanks in front. -/
def skip (cs : List Char) : List Char := cs.dropWhile Text.isBlank

/-- Reads the sign behind a name. -/
def readSign? (cs : List Char) : Option (List Char) :=
  match skip cs with
  | '=' :: cs => some (skip cs)
  | _ => none

/-- Reads the name and the sign, with or without the word `export` in front. -/
def readHead? (cs : List Char) : Option (String × List Char) :=
  match readName? (skip cs) with
  | none => none
  | some (name, cs) =>
    match readSign? cs with
    | some cs => some (name, cs)
    | none =>
      if name = "export" then
        match readName? (skip cs) with
        | none => none
        | some (name, cs) => (readSign? cs).map fun cs => (name, cs)
      else none

/-- How far a value is read. -/
inductive ValueMode where
  /-- Outside quotes. -/
  | plain
  /-- In double quotes. -/
  | quoted
  /-- In single quotes. -/
  | verbatim
  /-- Behind a blank, where only a comment may follow. -/
  | done
  deriving DecidableEq, Repr

/-- The characters that a backslash keeps. -/
def escaped? (c : Char) : Option Char :=
  if c = '\\' ∨ c = '\'' ∨ c = '"' ∨ c = '$' ∨ c = ' ' then some c
  else if c = 'n' then some '\n'
  else none

/-- What stands behind a name and a sign in front of a text. -/
def behind? (name text : List Char) : Option (List Char) :=
  if (name ++ ['=']).isPrefixOf text then some (text.drop (name.length + 1)) else none

/-- The value that a reference stands for, empty if there is none.  A variable is looked up in its
written form `NAME=value`, so a reference to `A=B` finds `c` if the value of `A` is `B=c`. -/
def valueOf (env : Environment) (name : List Char) : List Char :=
  (env.findSome? fun (own, value) => behind? name (own.toList ++ '=' :: value.toList)).getD []

/-- Reads the name behind a dollar sign.  Gives the name, what stands for itself behind it and what
follows. -/
def readReference? (cs : List Char) : Option (List Char × List Char × List Char) :=
  match cs with
  | '\x7b' :: cs =>
    match cs.dropWhile (· != '\x7d') with
    | [] => none
    | _ :: rest => some (cs.takeWhile (· != '\x7d'), [], rest)
  | cs =>
    let name := cs.takeWhile Text.isAlphanumeric
    match cs.dropWhile Text.isAlphanumeric with
    | [] => some (name, [], [])
    | c :: rest => if c = '$' then some (name, [], c :: rest) else some (name, [c], rest)

/-- Reads a value, at most `fuel` characters and references.  Gives nothing if it breaks the
rules. -/
def readValue? (env : Environment) : Nat → ValueMode → List Char → Option (List Char)
  | 0, _, _ => none
  | _ + 1, .plain, [] | _ + 1, .done, [] => some []
  | _ + 1, .quoted, [] | _ + 1, .verbatim, [] => none
  | fuel + 1, .done, c :: cs =>
    if c = ' ' ∨ c = '\t' then readValue? env fuel .done cs
    else if c = '#' then some []
    else none
  | fuel + 1, .verbatim, c :: cs =>
    if c = '\'' then readValue? env fuel .plain cs
    else (readValue? env fuel .verbatim cs).map (c :: ·)
  | fuel + 1, mode, '\\' :: c :: cs =>
    match escaped? c with
    | some c => (readValue? env fuel mode cs).map (c :: ·)
    | none => none
  | _ + 1, mode, ['\\'] => if mode = .plain then some [] else none
  | fuel + 1, mode, '$' :: cs =>
    match readReference? cs with
    | none => none
    | some (name, kept, cs) =>
      (readValue? env fuel mode cs).map fun value => valueOf env name ++ kept ++ value
  | fuel + 1, .quoted, c :: cs =>
    if c = '"' then readValue? env fuel .plain cs
    else (readValue? env fuel .quoted cs).map (c :: ·)
  | fuel + 1, .plain, c :: cs =>
    if c = '\'' then readValue? env fuel .verbatim cs
    else if c = '"' then readValue? env fuel .quoted cs
    else if c = ' ' ∨ c = '\t' then readValue? env fuel .done cs
    else (readValue? env fuel .plain cs).map (c :: ·)

/-- The names that the dollar signs of a text refer to. -/
def references : List Char → List String
  | [] => []
  | c :: cs =>
    let name? := if c = '$' then (readReference? cs).map (·.1) else none
    (name?.map String.ofList).toList ++ references cs

/-- What an entry gives. -/
inductive Entry where
  /-- Nothing. -/
  | empty
  /-- A variable. -/
  | variable (name value : String)
  /-- It breaks the rules. -/
  | broken
  deriving DecidableEq, Repr

/-- Reads an entry.  Blanks at both ends do not count, not even behind a backslash. -/
def readEntry (env : Environment) (cs : List Char) : Entry :=
  match Text.trim cs with
  | [] | '#' :: _ => .empty
  | cs =>
    match readHead? cs with
    | none => .broken
    | some (name, []) | some (name, '#' :: _) => .variable name ""
    | some (name, cs) =>
      match readValue? env (cs.length + 1) .plain cs with
      | some value => .variable name (String.ofList value)
      | none => .broken

/-- The environment with the variables of some entries that it does not have. -/
def load (env : Environment) : List (List Char) → Environment
  | [] => env
  | e :: es =>
    match readEntry env e with
    | .empty => load env es
    | .variable name value => load (if env.has name then env else (name, value) :: env) es
    | .broken => env

end EnvironmentFile

/-- A text without the mark of its byte order. -/
def EnvironmentFile.withoutMark : List Char → List Char
  | '\ufeff' :: cs => cs
  | cs => cs

/-- The entries of a file, up to the last one that is closed. -/
def EnvironmentFile.ofText (text : String) : List (List Char) :=
  (entries [] .plain (withoutMark text.toList)).1

/-- The variables on which the reading of a file depends. -/
def EnvironmentFile.names (text : String) : List String :=
  (ofText text).flatMap fun e =>
    ((readHead? (Text.trim e)).map (·.1)).toList ++ references e

/-- The environment with the variables of a file that it does not have. -/
def Environment.withFile (env : Environment) (text : String) : Environment :=
  EnvironmentFile.load env (EnvironmentFile.ofText text)

end Lineage.CommandLine

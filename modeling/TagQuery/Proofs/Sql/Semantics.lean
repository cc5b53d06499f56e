import TagQuery.Compare
import TagQuery.Text.LetterCase

/-!
# What statements mean

The part of SQL that scripts use. Conditions have three truth values and are kept apart from values;
columns are looked up in the rows in scope, the innermost first.

## Main definitions

- `Sql.Value`: what a column holds.
- `Sql.Formula`: a condition, and `Sql.Formula.eval`, its truth value.
- `Sql.Selection`: a statement that selects rows, and `Sql.Selection.rows`, the rows that it
  selects.
-/

namespace TagQuery.Sql

/-! ## Values -/

/-- What a column holds. A number that is none is held as NULL. -/
inductive Value where
  | null
  | integer (value : Int)
  | real (value : Real64)
  | text (value : String)
  deriving DecidableEq

namespace Value

def kind : Value → String
  | .null => "null"
  | .integer _ => "integer"
  | .real _ => "real"
  | .text _ => "text"

def ofReal : Real64 → Value
  | .nan => .null
  | x => .real x

/-- The order of an integer and a binary64 number, without rounding. -/
def compareIntReal (i : Int) : Real64 → Option Ordering
  | .nan => none
  | .infinity negative => some (if negative then .gt else .lt)
  | .finite negative steps _ => some (compare (i * unitSteps) (Real64.signedSteps negative steps))

/-- The order of texts, without regard to the case of ASCII letters when `fold` is set. -/
def compareText (fold : Bool) (a b : String) : Ordering :=
  if fold then compare (Text.asciiLowercase a) (Text.asciiLowercase b) else compare a b

/-- The order of values: numbers by value before texts. NULL has no place in it. -/
def compare? (fold : Bool) : Value → Value → Option Ordering
  | .null, _ => none
  | _, .null => none
  | .integer a, .integer b => some (compare a b)
  | .integer a, .real b => compareIntReal a b
  | .real a, .integer b => (compareIntReal b a).map Ordering.swap
  | .real a, .real b => a.compare? b
  | .text a, .text b => some (compareText fold a b)
  | .text _, _ => some .gt
  | _, .text _ => some .lt

def same (a b : Value) : Bool :=
  a.compare? false b == some .eq || a == .null && b == .null

end Value

/-! ## Truth values -/

/-- True, false, or unknown. -/
abbrev Truth := Option Bool

namespace Truth

def and : Truth → Truth → Truth
  | some false, _ => some false
  | _, some false => some false
  | some true, some true => some true
  | _, _ => none

def not (t : Truth) : Truth := Option.map Bool.not t

def or (a b : Truth) : Truth := ((a.not).and b.not).not

end Truth

/-! ## Patterns -/

inductive Wildcard where
  | anyRun
  | anyLetter
  | letter (c : Char)
  deriving DecidableEq, Repr

/-- The parts of a pattern; a character after the escape character stands for itself. -/
def wildcards (escape : Char) : List Char → Option (List Wildcard)
  | [] => some []
  | c :: cs =>
    if c = escape then
      match cs with
      | [] => none
      | d :: ds => (wildcards escape ds).map (.letter d :: ·)
    else
      (wildcards escape cs).map
        ((if c = '%' then .anyRun else if c = '_' then .anyLetter else .letter c) :: ·)

def matchesPattern : List Wildcard → List Char → Bool
  | [], cs => cs.isEmpty
  | .anyRun :: ws, cs => (List.range (cs.length + 1)).any fun n => matchesPattern ws (cs.drop n)
  | .anyLetter :: ws, cs => !cs.isEmpty && matchesPattern ws (cs.drop 1)
  | .letter c :: ws, cs =>
    (cs.head?.any fun d => c.toLower == d.toLower) && matchesPattern ws (cs.drop 1)

/-- The truth value of `text LIKE pattern ESCAPE escape`; other values than texts have none. -/
def like : Value → Value → Value → Truth
  | .text text, .text pattern, .text escape =>
    match escape.toList with
    | [c] => some ((wildcards c pattern.toList).any (matchesPattern · text.toList))
    | _ => none
  | _, _, _ => none

/-! ## Scopes -/

abbrev Row := List (String × Value)

/-- The rows in scope by name, the innermost first. -/
abbrev Scope := List (String × Row)

abbrev Database := String → List Row

/-- The value of a column of a row; a row that stands for a missing one has none. -/
def Row.get (row : Row) (column : String) : Value :=
  (row.lookup column).getD .null

def Scope.get (scope : Scope) (source column : String) : Value :=
  ((scope.lookup source).getD []).get column

/-! ## Expressions -/

inductive Scalar where
  | constant (value : Value)
  /-- A column of the row with a name; a row without one has the empty name. -/
  | column (source name : String)
  | coalesce (first second : Scalar)
  | kind (part : Scalar)
  | substring (part : Scalar) (start length : Nat)

def Scalar.eval (scope : Scope) : Scalar → Value
  | .constant v => v
  | .column source name => scope.get source name
  | .coalesce a b =>
    match a.eval scope with
    | .null => b.eval scope
    | v => v
  | .kind a => .text (a.eval scope).kind
  | .substring a start length =>
    match a.eval scope with
    | .text s => .text (String.ofList ((s.toList.take (start + length - 1)).drop (start - 1)))
    | _ => .null

/-- A table and the name of its rows. -/
structure Source where
  table : String
  name : String
  deriving DecidableEq, Repr

inductive Formula where
  /-- Two values in a relation, up to the case of ASCII letters when `fold` is set. -/
  | compare (op : CompareOp) (fold : Bool) (lhs rhs : Scalar)
  | isNotNull (part : Scalar)
  | isAmong (part : Scalar) (values : List Value)
  | like (part pattern escape : Scalar)
  | not (part : Formula)
  | and (lhs rhs : Formula)
  | or (lhs rhs : Formula)
  /-- Some choice of rows from the sources satisfies the condition. -/
  | exists (sources : List Source) (condition : Formula)

/-- All choices of rows from some sources. -/
def choices (db : Database) : List Source → List Scope
  | [] => [[]]
  | s :: sources => (db s.table).flatMap fun row => (choices db sources).map ((s.name, row) :: ·)

def relate (op : CompareOp) (fold : Bool) (a b : Value) : Truth :=
  (a.compare? fold b).map fun o => op.holds (some o)

def Formula.eval (db : Database) : Formula → Scope → Truth
  | .compare op fold a b, scope => relate op fold (a.eval scope) (b.eval scope)
  | .isNotNull a, scope => some (a.eval scope != .null)
  | .isAmong a values, scope =>
    values.foldr (fun v t => (relate .equal false (a.eval scope) v).or t) (some false)
  | .like a p e, scope => Sql.like (a.eval scope) (p.eval scope) (e.eval scope)
  | .not f, scope => (f.eval db scope).not
  | .and f g, scope => (f.eval db scope).and (g.eval db scope)
  | .or f g, scope => (f.eval db scope).or (g.eval db scope)
  | .exists sources f, scope =>
    some ((choices db sources).any fun chosen => f.eval db (chosen ++ scope) == some true)

/-! ## Statements -/

inductive Output where
  | column (name : String)
  /-- The number of rows of a group. -/
  | count
  deriving DecidableEq, Repr

/-- A selection from one table, with one row for each group when there are groups. -/
structure Subselect where
  outputs : List (Output × String)
  table : String
  condition : Option Formula
  groupBy : Option String

namespace Subselect

/-- The row that stands for some rows of the table. -/
def summarize (outputs : List (Output × String)) (group : List Row) : Row :=
  outputs.map fun (output, name) =>
    match output with
    | .column c => (name, (group.headD []).get c)
    | .count => (name, .integer group.length)

/-- The first row of each group with equal values of a column, of the values not seen before. -/
def leaders (column : String) (seen : List Value) : List Row → List Row
  | [] => []
  | row :: rows =>
    if seen.any (·.same (row.get column)) then leaders column seen rows
    else row :: leaders column (row.get column :: seen) rows

def kept (db : Database) (s : Subselect) : List Row :=
  (db s.table).filter fun row => s.condition.all fun f => f.eval db [("", row)] == some true

def rows (db : Database) (s : Subselect) : List Row :=
  match s.groupBy with
  | none => (s.kept db).map fun row => summarize s.outputs [row]
  | some column =>
    (leaders column [] (s.kept db)).map fun leader =>
      summarize s.outputs ((s.kept db).filter fun row => (leader.get column).same (row.get column))

end Subselect

/-- A join that keeps rows without a partner. -/
structure LeftJoin where
  select : Subselect
  name : String
  condition : Formula

/-- The rows in scope with each of their partners, or with an empty row where they have none. -/
def LeftJoin.extend (db : Database) (j : LeftJoin) (scope : Scope) : List Scope :=
  let partners := (j.select.rows db).filter fun row =>
    j.condition.eval db ((j.name, row) :: scope) == some true
  if partners.isEmpty then [(j.name, []) :: scope]
  else partners.map fun row => (j.name, row) :: scope

structure Selection where
  columns : List (String × String)
  source : Source
  joins : List LeftJoin
  condition : Formula

namespace Selection

def scopes (db : Database) (s : Selection) : List Scope :=
  s.joins.foldl (fun scopes j => scopes.flatMap (j.extend db))
    ((db s.source.table).map fun row => [(s.source.name, row)])

/-- The rows that satisfy the condition, each with the columns that are asked for. -/
def rows (db : Database) (s : Selection) : List (List Value) :=
  ((s.scopes db).filter fun scope => s.condition.eval db scope == some true).map fun scope =>
    s.columns.map fun (source, column) => scope.get source column

end Selection

end TagQuery.Sql

import SurveyTables.Answer.Basic
import SurveyTables.Catalog

/-!
# Responses

The answers of all respondents, one column for each variable and one answer for each respondent in
every column.

* `Column`, `Responses`, `Responses.column?`;
* `Responses.adding`, `Responses.extend`: one more column, if its id is new and its length right;
  `Responses.addColumn`: the same, where nothing is left of responses that refuse the column;
* `Responses.ofRows`: the same answers given respondent by respondent.
-/

namespace SurveyTables

/-- The answers to one variable, one for each respondent. -/
structure Column where
  id : String
  answers : Array Answer
  deriving DecidableEq, Repr, Inhabited

/-- What a respondent said; nothing if there is no such respondent. -/
def Column.answer (c : Column) (respondent : Nat) : Answer :=
  c.answers[respondent]?.getD .missing

/-- Columns in order, and the number of respondents. -/
structure Responses where
  columns : Catalog Column.id := .empty
  respondents : Nat := 0
  deriving DecidableEq

/-- Why columns do not make up responses. -/
inductive ResponsesError where
  /-- A column has no id. -/
  | emptyId
  /-- Two columns have the same id. -/
  | duplicate (id : String)
  /-- A column has not one answer for each respondent. -/
  | columnLength (id : String) (expected actual : Nat)
  /-- A respondent has not one answer for each column. -/
  | rowWidth (row expected actual : Nat)
  deriving DecidableEq, Repr

/-- The error as a text. -/
def ResponsesError.message : ResponsesError → String
  | .emptyId => "Variable id must not be empty"
  | .duplicate id => "Duplicate column: " ++ id
  | .columnLength id expected actual =>
    "Column '" ++ id ++ "' has " ++ toString actual ++ " values, dataset has " ++
      toString expected ++ " respondents"
  | .rowWidth row expected actual =>
    "Row " ++ toString row ++ " has " ++ toString actual ++ " values, expected " ++
      toString expected

namespace Responses

/-- The ids of the columns in order. -/
def ids (r : Responses) : List String :=
  r.columns.keys

/-- There is a column with the id. -/
def contains (r : Responses) (id : String) : Bool :=
  r.columns.contains id

/-- The column with the id. -/
def column? (r : Responses) (id : String) : Option Column :=
  r.columns.find? id

/-- The columns with the ids, as far as there are such columns. -/
def columnsOf (r : Responses) (ids : List String) : List Column :=
  ids.filterMap r.column?

/-- The steps by which responses get one more column. The first column says how many respondents there
are. -/
def adding (c : Column) : ExceptT ResponsesError (StateM Responses) Unit := do
  if c.id.isEmpty then throw .emptyId
  if (← get).contains c.id then throw (.duplicate c.id)
  let count := (← get).respondents
  if !(← get).columns.isEmpty && c.answers.size != count then
    throw (.columnLength c.id count c.answers.size)
  modify fun r => { r with respondents := c.answers.size }
  modify fun r => { r with columns := r.columns.push c }

/-- Whether the responses can get the column, and the responses that are left. -/
def extend (r : Responses) (c : Column) : Except ResponsesError Unit × Responses :=
  (adding c).run.run r

/-- The responses with one more column. -/
def addColumn (r : Responses) (c : Column) : Except ResponsesError Responses :=
  match r.extend c with
  | (.ok _, r) => .ok r
  | (.error e, _) => .error e

/-- The responses of the columns, each added in turn. -/
def ofColumns (columns : List Column) : Except ResponsesError Responses :=
  columns.foldlM addColumn {}

/-- The first row, counted from `start`, whose width is not the expected one. -/
def checkWidths (expected : Nat) (start : Nat) : List (List Answer) → Except ResponsesError Unit
  | [] => .ok ()
  | row :: rows =>
    if row.length = expected then checkWidths expected (start + 1) rows
    else .error (.rowWidth start expected row.length)

/-- The columns with the given headers, of rows as wide as there are headers. -/
def columnsOfRows (headers : List String) (rows : List (List Answer)) : List Column :=
  headers.mapIdx fun i id => { id, answers := (rows.map fun row => row.getD i .missing).toArray }

/-- The responses of rows of answers, one row for each respondent. -/
def ofRows (headers : List String) (rows : List (List Answer)) : Except ResponsesError Responses := do
  checkWidths headers.length 0 rows
  ofColumns (columnsOfRows headers rows)

end Responses

end SurveyTables

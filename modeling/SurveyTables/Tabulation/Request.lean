import SurveyTables.Responses.Basic
import SurveyTables.Table.Options
import SurveyTables.Table.Warning

/-!
# Requests

A table can be made if there are groups on its rows and columns, every group has variables, and all
variables and the weight are columns of the responses.

* `RequestError`, with its `message`;
* `requestFaults`: all that is wrong with a request, in the order in which it is looked for;
* `checkRequest`: refuses a request for its first fault;
* `requestWarnings`: what a request asks for and does not get.
-/

namespace SurveyTables

/-- Why a table cannot be made. -/
inductive RequestError where
  | emptyRows
  | emptyColumns
  | emptyGroup (axis : Axis) (index : Nat)
  | unknownVariable (id : String)
  | unknownWeight (id : String)
  deriving DecidableEq, Repr

/-- The error as a text. -/
def RequestError.message (e : RequestError) : String :=
  "Configuration error: " ++
    match e with
    | .emptyRows => "Rows are empty"
    | .emptyColumns => "Columns are empty"
    | .emptyGroup axis index => "Group " ++ toString index ++ " on " ++ axis.text ++ " has no variables"
    | .unknownVariable id => "Variable \"" ++ id ++ "\" is not defined in the dataset"
    | .unknownWeight id => "Weight variable \"" ++ id ++ "\" is not defined in the dataset"

namespace Tabulation

/-- What is wrong with the group at a place of an axis. -/
def groupFaults (r : Responses) (axis : Axis) (index : Nat) (g : Group) : List RequestError :=
  if g.isEmpty then [.emptyGroup axis index]
  else (g.filter fun id => !r.contains id).map .unknownVariable

/-- What is wrong with the groups of an axis. -/
def axisFaults (r : Responses) (d : Design) (axis : Axis) : List RequestError :=
  (d.groups axis).zipIdx.flatMap fun entry => groupFaults r axis entry.2 entry.1

/-- What is wrong with the weight. -/
def weightFaults (r : Responses) (o : Options) : List RequestError :=
  match o.weight with
  | some id => if r.contains id then [] else [.unknownWeight id]
  | none => []

/-- All that is wrong with a request. -/
def requestFaults (r : Responses) (d : Design) (o : Options) : List RequestError :=
  (if d.rows.isEmpty then [.emptyRows] else []) ++
    (if d.columns.isEmpty then [.emptyColumns] else []) ++
    Axis.all.flatMap (axisFaults r d) ++ weightFaults r o

/-- Refuses a request for its first fault. -/
def checkRequest (r : Responses) (d : Design) (o : Options) : Except RequestError Unit :=
  match requestFaults r d o with
  | [] => .ok ()
  | fault :: _ => .error fault

/-- What a request asks for and does not get. -/
def requestWarnings (d : Design) (o : Options) : List Warning :=
  (if d.additional.isSome then [.additionalAxis] else []) ++
    ((o.statistics.filter (· != .count)).eraseDups).map .notComputed

end Tabulation

end SurveyTables

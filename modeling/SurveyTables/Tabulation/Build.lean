import SurveyTables.Tabulation.Layout
import SurveyTables.Tabulation.Request
import SurveyTables.Tabulation.Weights

/-!
# Making a table

* `tabulate`: the table of a request, from the weights of the respondents, which may be numbers of
  any type;
* `build`: the table of a design, if nothing is wrong with the request;
* `buildFromDescription`: the table of a design that a text describes.
-/

namespace SurveyTables

namespace Tabulation

variable {α : Type} [Zero α] [Add α]

/-- The table of a request, in which a respondent is included who has a weight. -/
def tabulate (r : Responses) (d : Design) (o : Options) (weights : List (Option α)) : Table α :=
  let rowGroups := d.rows.map (GroupKeys.build r weights)
  let columnGroups := d.columns.map (GroupKeys.build r weights)
  let counts := tally (rowLines rowGroups) (columnLines o.columnTotal columnGroups) weights
  let columnEntries := columnEntries o.columnTotal columnGroups
  let rowEntries := rowEntries rowGroups columnEntries counts
  let rows := decodeEntries rowEntries
  let columns := decodeEntries columnEntries
  { rows := labels rows
    columns := labels columns
    cells := rows.map fun row => columns.map fun column => counts[(row.1, column.1)]?
    statistic := .count
    caption := o.caption
    warnings :=
      requestWarnings d o ++ decodeWarnings rowEntries ++ decodeWarnings columnEntries }

end Tabulation

/-- The table of a design. -/
def build (r : Responses) (d : Design) (o : Options) : Except RequestError (Table Float) := do
  Tabulation.checkRequest r d o
  return Tabulation.tabulate r d o (Tabulation.weights r d o)

/-- Why no table is made from a text. -/
inductive BuildError where
  | description (e : Design.DescriptionError)
  | request (e : RequestError)
  deriving DecidableEq, Repr

/-- The error as a text. -/
def BuildError.message : BuildError → String
  | .description e => e.message
  | .request e => e.message

/-- The table with a warning in front of its own. -/
def Table.addWarning {α : Type} (extra : Option Design.ExtraSegments) (t : Table α) : Table α :=
  { t with warnings := extra.toList.map .extraSegments ++ t.warnings }

/-- The table of the design that a text describes. What the reading of the text warns of comes
first. -/
def buildFromDescription (r : Responses) (text : String) (o : Options) :
    Except BuildError (Table Float) :=
  match Design.ofDescriptionWithWarning text with
  | .error e => .error (.description e)
  | .ok (d, extra) =>
    match build r d o with
    | .error e => .error (.request e)
    | .ok t => .ok (t.addWarning extra)

end SurveyTables

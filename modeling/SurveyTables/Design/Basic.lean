import SurveyTables.Expression.Groups

/-!
# Designs

A design says which groups of variables stand on the rows and on the columns of a table, and on an
additional axis if there is one.

* `Axis`, `Design`, `Design.groups`;
* `Design.variableIds`, `Design.rowVariableIds`: the variables that a design needs.
-/

namespace SurveyTables

/-- The axes of a table. -/
inductive Axis where
  | rows
  | columns
  | additional
  deriving DecidableEq, Repr

namespace Axis

/-- The axis as it is named in messages. -/
def text : Axis → String
  | .rows => "rows"
  | .columns => "columns"
  | .additional => "additional axis"

/-- All axes, in the order in which they are written and checked. -/
def all : List Axis := [.rows, .columns, .additional]

end Axis

/-- The groups on each axis, in order. -/
structure Design where
  rows : List Group
  columns : List Group
  additional : Option (List Group) := none
  deriving DecidableEq, Repr

namespace Design

/-- The groups on an axis; none on an additional axis that is absent. -/
def groups (d : Design) : Axis → List Group
  | .rows => d.rows
  | .columns => d.columns
  | .additional => d.additional.getD []

/-- The variables on all axes, each once, in the order in which they first come up. -/
def variableIds (d : Design) : List String :=
  (Axis.all.flatMap fun axis => (d.groups axis).flatten).eraseDups

/-- The variables on the rows, each once, in the order in which they first come up. -/
def rowVariableIds (d : Design) : List String :=
  d.rows.flatten.eraseDups

end Design

end SurveyTables

import SurveyTables.Table.Options
import SurveyTables.Table.Path
import SurveyTables.Table.Warning

/-!
# Tables

A table has a label for every row and every column, and a cell for each pair of them, which is empty
where nobody was counted. One row is the base row, which counts all that a column counts.

* `Label.Kind`, `Label`, `Table`, over any type of numbers;
* `Table.cell`, `Table.baseIndex?`, `Table.baseRow?`: look-ups by place;
* `Table.columnGroup`, `Table.findRow?`, `Table.findColumn?`: look-ups by label;
* `Table.same`: equality of tables, with cells compared as numbers.
-/

namespace SurveyTables

/-- What a row or a column counts. -/
inductive Label.Kind where
  /-- Those who gave certain answers to the variables of a group. -/
  | data (group : Nat)
  /-- All: the total column. -/
  | total
  /-- All: the base row. -/
  | base
  deriving DecidableEq, Repr

/-- The label of a row or a column. -/
structure Label where
  path : Path
  kind : Label.Kind
  /-- What the cells of the row hold. -/
  statistic : Statistic
  deriving DecidableEq, Repr

namespace Label

/-- The label is that of a base row. -/
def isBase (l : Label) : Bool :=
  l.kind == .base

end Label

/-- A table with cells of a type of numbers. -/
structure Table (α : Type) where
  rows : List Label
  columns : List Label
  cells : List (List (Option α))
  /-- What the cells of the data rows hold. -/
  statistic : Statistic
  caption : Caption
  warnings : List Warning
  deriving DecidableEq, Repr

namespace Table

variable {α : Type}

/-- The cell in a row and a column; empty as well where there is no such row or column. -/
def cell (t : Table α) (row column : Nat) : Option α :=
  (t.cells[row]?.bind (·[column]?)).join

/-- The place of the base row, of the last one if there are several. -/
def baseIndex? (t : Table α) : Option Nat :=
  (t.rows.reverse.findIdx? Label.isBase).map (t.rows.length - 1 - ·)

/-- The cells of the base row. -/
def baseRow? (t : Table α) : Option (List (Option α)) :=
  t.baseIndex?.map fun i => t.cells[i]?.getD []

/-- The places of the columns of a group. -/
def columnGroup (t : Table α) (group : Nat) : List Nat :=
  (t.columns.zipIdx.filter fun entry => entry.1.kind == .data group).map Prod.snd

/-- The place of the first label whose path begins with the texts. -/
def findLabel? (start : List String) (labels : List Label) : Option Nat :=
  labels.findIdx? fun l => start.isPrefixOf l.path.flat

/-- The place of the first row whose label begins with the texts. -/
def findRow? (t : Table α) (start : List String) : Option Nat :=
  findLabel? start t.rows

/-- The place of the first column whose label begins with the texts. -/
def findColumn? (t : Table α) (start : List String) : Option Nat :=
  findLabel? start t.columns

/-- The same table, where two cells are the same if both are empty or their numbers are equal. -/
def same [BEq α] (t u : Table α) : Bool :=
  t.rows == u.rows && t.columns == u.columns && t.cells == u.cells &&
    t.statistic == u.statistic && t.caption == u.caption && t.warnings == u.warnings

end Table

end SurveyTables

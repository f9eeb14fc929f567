import SurveyTables.Table.Basic

/-!
# Column percentages

A table of counts becomes a table of percentages when every cell is divided by the cell of the base
row in its column. The base row itself stays.

* `PercentError`, with its `message`;
* `share?`: a cell divided by its base; `Table.percent`.
-/

namespace SurveyTables

/-- Why a table has no column percentages. -/
inductive PercentError where
  /-- Its cells are percentages already. -/
  | alreadyPercent
  /-- It has no base row. -/
  | noBase
  deriving DecidableEq, Repr

/-- The error as a text. -/
def PercentError.message : PercentError → String
  | .alreadyPercent => "Column percentages were already applied to this table"
  | .noBase => "Table has no base row"

namespace Table

variable {α : Type} [Zero α] [Div α] [BEq α]

/-- A number divided by its base; none if one of them is missing or the base is zero. -/
def share? : Option α → Option α → Option α
  | some x, some base => if base != 0 then some (x / base) else none
  | _, _ => none

/-- The label of a row of percentages. -/
def percentLabel (l : Label) : Label :=
  if l.isBase then l else { l with statistic := .columnPercent }

/-- The rows with every cell divided by the one above or below it in the base row, which stays. A
row ends where it or the base row ends. -/
def percentCells (baseIndex : Nat) (cells : List (List (Option α))) : List (List (Option α)) :=
  let base := cells[baseIndex]?.getD []
  cells.mapIdx fun i row => if i = baseIndex then row else List.zipWith share? row base

/-- The column percentages of a table. -/
def percent (t : Table α) : Except PercentError (Table α) :=
  if t.statistic = .columnPercent then .error .alreadyPercent
  else
    match t.baseIndex? with
    | none => .error .noBase
    | some i =>
      .ok
        { t with
          rows := t.rows.map percentLabel
          cells := percentCells i t.cells
          statistic := .columnPercent }

end Table

end SurveyTables

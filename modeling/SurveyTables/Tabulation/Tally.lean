import Std.Data.HashMap
import SurveyTables.Tabulation.GroupKeys

/-!
# Tallies

Each respondent takes part in some rows and some columns of a table: those of the classes that the
answers belong to, the base row and the total column. A tally holds for every pair of a row and a
column the sum of the weights of those who take part in both, added in the order of the respondents.

* `Line`, `rowLines`, `columnLines`: the rows and columns in which a respondent takes part;
* `Tally`, `Tally.count`: a respondent counted; `tally`: all of them.
-/

namespace SurveyTables.Tabulation

/-- A row or a column: a class of a group, by the numbers of both, or all respondents. -/
inductive Line where
  | data (group key : Nat)
  | total
  | base
  deriving DecidableEq, Hashable, Repr

/-- The classes that a respondent belongs to. -/
def dataLines (groups : List GroupKeys) (respondent : Nat) : List Line :=
  groups.zipIdx.filterMap fun entry => (entry.1.mark? respondent).map (Line.data entry.2)

/-- The rows in which a respondent takes part. -/
def rowLines (groups : List GroupKeys) (respondent : Nat) : List Line :=
  .base :: dataLines groups respondent

/-- The columns in which a respondent takes part, where there may be a total column. -/
def columnLines (columnTotal : Bool) (groups : List GroupKeys) (respondent : Nat) : List Line :=
  (if columnTotal then [.total] else []) ++ dataLines groups respondent

/-- Sums of weights for pairs of a row and a column. -/
abbrev Tally (α : Type) : Type := Std.HashMap (Line × Line) α

namespace Tally

variable {α : Type} [Zero α] [Add α]

/-- Nobody is counted: all respondents together weigh nothing, and no class has come up. -/
def start : Tally α :=
  (∅ : Tally α).insert (.base, .total) 0

/-- A weight added at a row and a column. -/
def addAt (w : α) (t : Tally α) (place : Line × Line) : Tally α :=
  t.insert place (t.getD place 0 + w)

/-- A weight added at all pairs of the rows and columns. -/
def count (rows columns : List Line) (w : α) (t : Tally α) : Tally α :=
  (rows.flatMap fun row => columns.map fun column => (row, column)).foldl (addAt w) t

end Tally

/-- The tally of all respondents who have a weight. -/
def tally {α : Type} [Zero α] [Add α] (rows columns : Nat → List Line)
    (weights : List (Option α)) : Tally α :=
  weights.zipIdx.foldl
    (fun t entry =>
      match entry.1 with
      | some w => t.count (rows entry.2) (columns entry.2) w
      | none => t)
    Tally.start

end SurveyTables.Tabulation

import SurveyTables.Table.Shown
import SurveyTables.Tabulation.Tally

/-!
# Layout

The rows of a table are the classes of the row groups, group by group and in order, as far as they
have a cell, and the base row. The columns are the total column, if there is one, and the classes of
the column groups.

* `KeyedLine`, `dataEntries`: a row or column with its key;
* `rowEntries`, `columnEntries`;
* `decodeEntries`: the entries with their paths, and warnings for those whose key is none;
* `labels`.
-/

namespace SurveyTables.Tabulation

/-- A row or a column with its key. -/
structure KeyedLine where
  line : Line
  key : String
  deriving DecidableEq, Repr

/-- The key of the base row. -/
def baseRowKey : String :=
  Key.encode [(baseId, Statistic.count.marker)]

/-- The key of the total column. -/
def totalColumnKey : String :=
  Key.encode [(totalId, "")]

/-- The classes of the groups, group by group and in order. -/
def dataEntries (groups : List GroupKeys) : List KeyedLine :=
  groups.zipIdx.flatMap fun group =>
    group.1.sorted.map fun entry => { line := .data group.2 entry.2, key := entry.1.key }

/-- The columns of a table. -/
def columnEntries (columnTotal : Bool) (groups : List GroupKeys) : List KeyedLine :=
  (if columnTotal then [{ line := .total, key := totalColumnKey }] else []) ++ dataEntries groups

/-- The rows of a table that has the columns. -/
def rowEntries {α : Type} (groups : List GroupKeys) (columns : List KeyedLine) (t : Tally α) :
    List KeyedLine :=
  (dataEntries groups).filter (fun row => columns.any fun column => t.contains (row.line, column.line))
    ++ [{ line := .base, key := baseRowKey }]

/-- The entries with their paths, without those whose key is none. -/
def decodeEntries (entries : List KeyedLine) : List (Line × Path) :=
  entries.filterMap fun entry =>
    match Key.decode entry.key with
    | .ok path => some (entry.line, path)
    | .error _ => none

/-- Warnings for the entries whose key is none. -/
def decodeWarnings (entries : List KeyedLine) : List Warning :=
  entries.filterMap fun entry =>
    match Key.decode entry.key with
    | .ok _ => none
    | .error e => some (.undecodableKey entry.key e.message)

/-- What a row or a column counts. -/
def Line.kind : Line → Label.Kind
  | .data group _ => .data group
  | .total => .total
  | .base => .base

/-- The labels of an axis, with paths of the same length. -/
def labels (entries : List (Line × Path)) : List Label :=
  List.zipWith (fun entry path => { path, kind := entry.1.kind, statistic := .count })
    entries (padded (entries.map Prod.snd))

end SurveyTables.Tabulation

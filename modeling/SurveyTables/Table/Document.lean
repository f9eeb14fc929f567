import SurveyTables.Table.Basic

/-!
# Tables as documents

* `Path.toDocument`, `Label.Kind.toDocument`, `Label.toDocument`, `Table.toDocument`;
* `Label.Kind.ofDocument?`, `Label.ofDocument?`, `Table.ofDocument?`.
-/

namespace SurveyTables

/-- The path written as a document. -/
def Path.toDocument (p : Path) : Document :=
  .list (p.map fun pair => .list [.text pair.1, .text pair.2])

namespace Label.Kind

/-- The kind written as a document. -/
def toDocument : Label.Kind → Document
  | .data group => .object [("Data", .object [("group", .whole group)])]
  | .total => .text "Total"
  | .base => .text "Base"

/-- The kind that the document describes. -/
def ofDocument? (d : Document) : Option Label.Kind := do
  let (name, content) ← d.variant?
  match name, content with
  | "Data", some (.object fields) =>
    .data <$> Document.required? Document.natural? (Document.field? "group" fields)
  | "Total", content => if Document.isBare content then some .total else none
  | "Base", content => if Document.isBare content then some .base else none
  | _, _ => none

end Label.Kind

namespace Label

/-- The label written as a document. -/
def toDocument (l : Label) : Document :=
  .object
    [("path", l.path.toDocument), ("kind", l.kind.toDocument),
      ("statistic", l.statistic.toDocument)]

/-- The label that the document describes. -/
def ofDocument? (d : Document) : Option Label := do
  match ← d.fields? ["path", "kind", "statistic"] with
  | [path, kind, statistic] =>
    let path ← Document.required? (Document.listOf? Document.pair?) path
    let kind ← Document.required? Label.Kind.ofDocument? kind
    let statistic ← Document.required? Statistic.ofDocument? statistic
    return { path, kind, statistic }
  | _ => none

end Label

namespace Table

/-- The cell written as a document. -/
def cellToDocument : Option Float → Document
  | some x => .ofFloat x
  | none => .null

/-- The table written as a document. -/
def toDocument (t : Table Float) : Document :=
  .object
    [("rows", .list (t.rows.map Label.toDocument)),
      ("columns", .list (t.columns.map Label.toDocument)),
      ("cells", .list (t.cells.map fun row => .list (row.map cellToDocument))),
      ("statistic", t.statistic.toDocument), ("metadata", t.caption.toDocument),
      ("warnings", .list (t.warnings.map Warning.toDocument))]

/-- The table that the document describes. -/
def ofDocument? (d : Document) : Option (Table Float) := do
  let names := ["rows", "columns", "cells", "statistic", "metadata", "warnings"]
  match ← d.fields? names with
  | [rows, columns, cells, statistic, caption, warnings] =>
    let rows ← Document.required? (Document.listOf? Label.ofDocument?) rows
    let columns ← Document.required? (Document.listOf? Label.ofDocument?) columns
    let cells ←
      Document.required?
        (Document.listOf? (Document.listOf? (Document.optional? Document.float?))) cells
    let statistic ← Document.required? Statistic.ofDocument? statistic
    let caption ← Document.required? Caption.ofDocument? caption
    let warnings ← Document.required? (Document.listOf? Warning.ofDocument?) warnings
    return { rows, columns, cells, statistic, caption, warnings }
  | _ => none

end Table

end SurveyTables

import SurveyTables.Design.Basic
import SurveyTables.Document.Reading

/-!
# Designs as documents

* `Design.toDocument`, `Design.ofDocument?`.
-/

namespace SurveyTables.Design

/-- The groups of an axis written as a document. -/
def axisToDocument (groups : List Group) : Document :=
  .list (groups.map Document.ofTexts)

/-- The groups of an axis that the document describes. -/
def axisOfDocument? (d : Document) : Option (List Group) :=
  d.listOf? (Document.listOf? Document.text?)

/-- The design written as a document. -/
def toDocument (d : Design) : Document :=
  .object
    [("rows", axisToDocument d.rows), ("columns", axisToDocument d.columns),
      ("additional_axis", (d.additional.map axisToDocument).getD .null)]

/-- The design that the document describes. Without an additional axis it has none. -/
def ofDocument? (d : Document) : Option Design := do
  match ← d.fields? ["rows", "columns", "additional_axis"] with
  | [rows, columns, additional] =>
    let rows ← Document.required? axisOfDocument? rows
    let columns ← Document.required? axisOfDocument? columns
    let additional ← Document.orElse? none (Document.optional? axisOfDocument?) additional
    return { rows, columns, additional }
  | _ => none

end SurveyTables.Design

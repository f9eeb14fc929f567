import SurveyTables.Design.Description
import SurveyTables.Table.Statistic

/-!
# Warnings

What is remarkable about a table that was nevertheless made.

* `Warning`, `Warning.message`;
* `Warning.toDocument`, `Warning.ofDocument?`.
-/

namespace SurveyTables

/-- What is remarkable about a table. -/
inductive Warning where
  /-- The description had more segments than there are axes. -/
  | extraSegments (extra : Design.ExtraSegments)
  /-- The design has an additional axis, which is ignored. -/
  | additionalAxis
  /-- A statistic was asked for that is not computed. -/
  | notComputed (s : Statistic)
  /-- A row or column was dropped because its key is none. -/
  | undecodableKey (key reason : String)
  deriving DecidableEq, Repr

namespace Warning

/-- The warning as a text. -/
def message : Warning → String
  | .extraSegments extra => extra.message
  | .additionalAxis => "Additional axis is not supported now"
  | .notComputed s => "Statistic " ++ s.name ++ " is not computed"
  | .undecodableKey key reason => "Dropped undecodable key '" ++ key ++ "': " ++ reason

/-- The warning written as a document. -/
def toDocument : Warning → Document
  | .extraSegments extra =>
    .object
      [("ExtraSegmentsDropped",
        .object [("found", .whole extra.found), ("dropped", .ofTexts extra.dropped)])]
  | .additionalAxis => .text "AdditionalAxisUnsupported"
  | .notComputed s => .object [("StatisticNotComputed", s.toDocument)]
  | .undecodableKey key reason =>
    .object [("UndecodableKey", .object [("key", .text key), ("reason", .text reason)])]

/-- The warning that the document describes. -/
def ofDocument? (d : Document) : Option Warning := do
  let (name, content) ← d.variant?
  match name, content with
  | "ExtraSegmentsDropped", some (.object fields) =>
    let found ← Document.required? Document.natural? (Document.field? "found" fields)
    let dropped ←
      Document.required? (Document.listOf? Document.text?) (Document.field? "dropped" fields)
    return .extraSegments { found, dropped }
  | "AdditionalAxisUnsupported", content =>
    if Document.isBare content then some .additionalAxis else none
  | "StatisticNotComputed", some s => .notComputed <$> Statistic.ofDocument? s
  | "UndecodableKey", some (.object fields) =>
    let key ← Document.required? Document.text? (Document.field? "key" fields)
    let reason ← Document.required? Document.text? (Document.field? "reason" fields)
    return .undecodableKey key reason
  | _, _ => none

end Warning

end SurveyTables

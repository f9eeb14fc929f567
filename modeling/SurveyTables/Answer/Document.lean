import SurveyTables.Answer.Basic
import SurveyTables.Document.Reading

/-!
# Answers as documents

An answer is written as the alternative that it is, with its content.

* `Answer.toDocument`, `Answer.ofDocument?`.
-/

namespace SurveyTables.Answer

/-- The answer written as a document. -/
def toDocument : Answer → Document
  | .missing => .text "Missing"
  | .number x => .object [("Number", .ofFloat x)]
  | .text s => .object [("Text", .text s)]
  | .boolean b => .object [("Boolean", .bool b)]

/-- The answer that the document describes. -/
def ofDocument? (d : Document) : Option Answer := do
  let (name, content) ← d.variant?
  match name with
  | "Missing" => if Document.isBare content then some .missing else none
  | "Number" => .number <$> Document.required? Document.float? content
  | "Text" => .text <$> Document.required? Document.text? content
  | "Boolean" => .boolean <$> Document.required? Document.bool? content
  | _ => none

end SurveyTables.Answer

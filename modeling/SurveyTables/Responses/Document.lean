import SurveyTables.Answer.Document
import SurveyTables.Responses.Basic

/-!
# Responses as documents

Responses are written as their columns and the number of respondents, and are checked again when
they are read.

* `Responses.toDocument`, `Responses.ofDocument?`.
-/

namespace SurveyTables

namespace Column

/-- The column written as a document. -/
def toDocument (c : Column) : Document :=
  .object
    [("id", .text c.id), ("values", .list (c.answers.toList.map Answer.toDocument))]

/-- The column that the document describes. -/
def ofDocument? (d : Document) : Option Column := do
  match ← d.fields? ["id", "values"] with
  | [id, answers] =>
    let id ← Document.required? Document.text? id
    let answers ← Document.required? (Document.listOf? Answer.ofDocument?) answers
    return { id, answers := answers.toArray }
  | _ => none

end Column

namespace Responses

/-- The responses written as a document. -/
def toDocument (r : Responses) : Document :=
  .object
    [("columns", .list (r.columns.toList.map Column.toDocument)),
      ("respondents", .whole r.respondents)]

/-- The responses with the given number of respondents, which has to be the right one if there are
columns. -/
def withRespondents (r : Responses) (count : Nat) : Option Responses :=
  if r.columns.isEmpty then some { r with respondents := count }
  else if count = r.respondents then some r
  else none

/-- The responses that the document describes. Their columns have to fit, and their number of respondents. -/
def ofDocument? (d : Document) : Option Responses := do
  match ← d.fields? ["columns", "respondents"] with
  | [columns, respondents] =>
    let columns ← Document.required? (Document.listOf? Column.ofDocument?) columns
    let respondents ←
      Document.orElse? none (Document.optional? Document.natural?) respondents
    let responses ← (ofColumns columns).toOption
    match respondents with
    | some count => responses.withRespondents count
    | none => return responses
  | _ => none

end Responses

end SurveyTables

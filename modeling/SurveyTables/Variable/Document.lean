import SurveyTables.Variable.Basic

/-!
# Variables as documents

A variable is written as a record of all its fields, and its children as records within it.

* `Variable.toDocument`, `Variable.ofDocument?`.
-/

namespace SurveyTables.Variable

mutual

/-- The variable written as a document, with its children. -/
def toDocument : Variable → Document
  | ⟨id, valueType, label, values, children, questionType⟩ =>
    .object
      [("id", .text id), ("variable_type", .ofText? valueType), ("label", .text label),
        ("values", values.toDocument), ("children", .list (toDocuments children)),
        ("survey_type", .ofText? questionType)]

/-- The variables written as documents. -/
def toDocuments : List Variable → List Document
  | [] => []
  | v :: vs => v.toDocument :: toDocuments vs

end

/-- The variable with the given fields and no children. -/
def ofFields? (id valueType label values questionType : Option Document) : Option Variable := do
  let id ← Document.required? Document.text? id
  let valueType ← Document.orElse? none (Document.optional? Document.text?) valueType
  let label ← Document.required? Document.text? label
  let values ← Document.required? Labels.ofDocument? values
  let questionType ← Document.orElse? none (Document.optional? Document.text?) questionType
  return { id, valueType, label, values, questionType }

mutual

/-- The variable that a document is. A list must have all fields. -/
def ofDocument? : Document → Option Variable
  | .object fields => do
    let field (name : String) := Document.field? name fields
    let v ← ofFields? (field "id") (field "variable_type") (field "label") (field "values")
      (field "survey_type")
    let children ← childrenOfFields? fields
    return { v with children }
  | .list [id, valueType, label, values, .list children, questionType] => do
    let v ← ofFields? (some id) (some valueType) (some label) (some values) (some questionType)
    let children ← ofDocuments? children
    return { v with children }
  | _ => none

/-- The children among the fields of a variable. -/
def childrenOfFields? : List (String × Document) → Option (List Variable)
  | [] => none
  | (name, .list items) :: rest =>
    if name = "children" then ofDocuments? items else childrenOfFields? rest
  | (name, _) :: rest =>
    if name = "children" then none else childrenOfFields? rest

/-- The variables that the documents describe. -/
def ofDocuments? : List Document → Option (List Variable)
  | [] => some []
  | d :: ds => do
    let v ← ofDocument? d
    let vs ← ofDocuments? ds
    return v :: vs

end

end SurveyTables.Variable

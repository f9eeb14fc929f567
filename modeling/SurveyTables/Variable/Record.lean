import SurveyTables.Document.Compact
import SurveyTables.Text.Blank
import SurveyTables.Variable.Basic

/-!
# Variable records

A record describes a variable by hand: it may leave out all fields but the id, and may give the value
labels as an object or as pairs, with codes of several kinds. It is checked before it becomes a
variable, and so are the records of its children.

* `RecordError`, with its `message`;
* `Record`: the fields of a record, and `Record.check`: what they have to satisfy;
* `Variable.ofRecord`, `Variable.ofRecords`.
-/

namespace SurveyTables

/-- Why a document is not the record of a variable. -/
inductive RecordError where
  /-- A field is missing, unknown or of the wrong kind. -/
  | malformed
  /-- The id is blank. -/
  | emptyId
  /-- A value code is neither a text, nor a number, nor a truth value. -/
  | unsupportedCode (id : String) (code : Document)
  /-- A label in an object of labels is not a text. -/
  | labelNotText (id code : String)
  deriving Repr

/-- The error as a text. -/
def RecordError.message : RecordError → String
  | .malformed => "Malformed variable record"
  | .emptyId => "Variable id must not be empty"
  | .unsupportedCode id code =>
    "Invalid variable record: variable '" ++ id ++ "': unsupported value code " ++ code.compact
  | .labelNotText id code =>
    "Invalid variable record: variable '" ++ id ++ "': label for value '" ++ code ++
      "' is not a string"

/-- Value labels as a record gives them. -/
inductive RecordValues where
  | pairs (items : List (Document × String))
  | fields (items : List (String × Document))
  deriving Repr

namespace RecordValues

/-- A value code and its label. -/
def pair? : Document → Option (Document × String)
  | .list [code, .text label] => some (code, label)
  | _ => none

/-- The value labels that a document gives. -/
def ofDocument? : Document → Option RecordValues
  | .list items => .pairs <$> items.mapM pair?
  | .object items => some (.fields items)
  | _ => none

/-- A value code in words. -/
def codeText? : Document → Option String
  | .text s => some s
  | .whole n => some (toString n)
  | .real x => some (Number.pointedText x)
  | .bool b => some (if b then "TRUE" else "FALSE")
  | _ => none

/-- The pair of a value code and its label. -/
def checkPair (id : String) : Document × String → Except RecordError (String × String)
  | (code, label) =>
    match codeText? code with
    | some code => .ok (code, label)
    | none => .error (.unsupportedCode id code)

/-- The pair of a field's name and its label. -/
def checkField (id : String) : String × Document → Except RecordError (String × String)
  | (code, .text label) => .ok (code, label)
  | (code, _) => .error (.labelNotText id code)

/-- The value labels of the variable with the id. -/
def check (id : String) : RecordValues → Except RecordError Labels
  | .pairs items => Labels.ofPairs <$> items.mapM (checkPair id)
  | .fields items => Labels.ofPairs <$> items.mapM (checkField id)

end RecordValues

/-- The fields of a variable record, apart from the children. -/
structure Record where
  id : String
  valueType : Option String
  label : String
  values : Option RecordValues
  questionType : Option String
  deriving Repr

namespace Record

/-- The fields that a record may have, in their order. -/
def names : List String :=
  ["id", "type", "label", "values", "children", "survey_type"]

/-- The record is a list, or all its fields are known. -/
def hasKnownFields : Document → Bool
  | .object fields => fields.all fun field => names.contains field.1
  | _ => true

/-- The record that a document is. The children have to be a list. -/
def ofDocument? (d : Document) : Option Record := do
  if !hasKnownFields d then
    none
  match ← d.fields? names with
  | [id, valueType, label, values, children, questionType] =>
    let id ← Document.required? Document.text? id
    let valueType ← Document.orElse? none (Document.optional? Document.text?) valueType
    let label ← Document.orElse? "" Document.text? label
    let values ← Document.orElse? none (Document.optional? RecordValues.ofDocument?) values
    let _ ← Document.orElse? [] (Document.listOf? some) children
    let questionType ← Document.orElse? none (Document.optional? Document.text?) questionType
    return { id, valueType, label, values, questionType }
  | _ => none

/-- The variable of a record, without its children. -/
def check (r : Record) : Except RecordError Variable := do
  let id := Text.trimmed r.id
  if id.isEmpty then
    throw .emptyId
  let values ← match r.values with
    | some values => values.check id
    | none => pure .empty
  return { id, valueType := r.valueType, label := r.label, values, questionType := r.questionType }

/-- The variable of the record that a document is, without its children. -/
def read (d : Document) : Except RecordError Variable :=
  match ofDocument? d with
  | some r => r.check
  | none => .error .malformed

end Record

namespace Variable

mutual

/-- The variable of the record that a document is. -/
def ofRecord : Document → Except RecordError Variable
  | .object fields => do
    let v ← Record.read (.object fields)
    let children ← childrenOfRecord fields
    return { v with children }
  | .list items => do
    let v ← Record.read (.list items)
    let children ← match items with
      | _ :: _ :: _ :: _ :: .list children :: _ => ofRecords children
      | _ => pure []
    return { v with children }
  | _ => .error .malformed

/-- The children among the fields of a record. -/
def childrenOfRecord : List (String × Document) → Except RecordError (List Variable)
  | [] => .ok []
  | (name, .list items) :: rest =>
    if name = "children" then ofRecords items else childrenOfRecord rest
  | _ :: rest => childrenOfRecord rest

/-- The variables of the records, or the first error. -/
def ofRecords : List Document → Except RecordError (List Variable)
  | [] => .ok []
  | d :: ds => do
    let v ← ofRecord d
    let vs ← ofRecords ds
    return v :: vs

end

end Variable

end SurveyTables

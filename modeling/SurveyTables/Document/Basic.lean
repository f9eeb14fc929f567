import SurveyTables.Number.Magnitude

/-!
# Documents

A document is a JSON value. Whole numbers and doubles are kept apart, and the fields of an object
have an order and distinct names.

* `Document`;
* `Document.ofFields`: an object of fields that may repeat a name;
* `Document.ofFloat`: the document of a double.
-/

namespace SurveyTables

/-- A JSON value. -/
inductive Document where
  | null
  | bool (b : Bool)
  | whole (n : Int)
  | real (x : Float)
  | text (s : String)
  | list (items : List Document)
  | object (fields : List (String × Document))
  deriving Repr

namespace Document

/-- The fields with one more: a name that is there already keeps its place and takes the new value. -/
def setField (name : String) (value : Document) :
    List (String × Document) → List (String × Document)
  | [] => [(name, value)]
  | field :: rest =>
    if field.1 = name then (name, value) :: rest else field :: setField name value rest

/-- The object with the given fields, of which the last with a name decides its value. -/
def ofFields (fields : List (String × Document)) : Document :=
  .object (fields.foldl (fun done field => setField field.1 field.2 done) [])

/-- A double as a document: one that is not finite has no number in JSON and is written as null. -/
def ofFloat (x : Float) : Document :=
  if Number.isFinite x then .real x else .null

/-- A text that may be absent. -/
def ofText? : Option String → Document
  | some s => .text s
  | none => .null

/-- The list of the texts. -/
def ofTexts (texts : List String) : Document :=
  .list (texts.map .text)

end Document

end SurveyTables

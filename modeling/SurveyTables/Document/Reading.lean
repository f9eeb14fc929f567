import SurveyTables.Document.Basic

/-!
# Reading values from documents

Each kind of value is read from its own kind of document, and nothing is converted, save that a
double may be written as a whole number.

* `text?`, `bool?`, `natural?`, `float?`, `optional?`, `listOf?`, `pair?`: simple values;
* `fields?`: a record, written as an object or as the list of its values;
* `variant?`: one of several alternatives, with its content.
-/

namespace SurveyTables.Document

/-- The text that the document is. -/
def text? : Document → Option String
  | .text s => some s
  | _ => none

/-- The truth value that the document is. -/
def bool? : Document → Option Bool
  | .bool b => some b
  | _ => none

/-- The whole number, if it is not negative. -/
def natural? : Document → Option Nat
  | .whole (.ofNat n) => some n
  | _ => none

/-- The double; of a whole number the nearest one. -/
def float? : Document → Option Float
  | .real x => some x
  | .whole n => some (Float.ofInt n)
  | _ => none

/-- A value that may be absent, which is written as null. -/
def optional? {α : Type} (read : Document → Option α) : Document → Option (Option α)
  | .null => some none
  | d => (read d).map some

/-- The members of a list, each read in turn. -/
def listOf? {α : Type} (read : Document → Option α) : Document → Option (List α)
  | .list items => items.mapM read
  | _ => none

/-- The two texts that the document lists. -/
def pair? : Document → Option (String × String)
  | .list [.text a, .text b] => some (a, b)
  | _ => none

/-- The value of the field with the name. -/
def field? (name : String) (fields : List (String × Document)) : Option Document :=
  fields.lookup name

/-- The values of the named fields of a record; `none` for a field that is left out. An object may
have other fields as well. A list has the values in the order of the names and may end early. -/
def fields? (names : List String) : Document → Option (List (Option Document))
  | .object fields => some (names.map (field? · fields))
  | .list items =>
    if items.length ≤ names.length then
      some (items.map some ++ List.replicate (names.length - items.length) none)
    else none
  | _ => none

/-- The value of a field that may not be left out. -/
def required? {α : Type} (read : Document → Option α) : Option Document → Option α
  | some d => read d
  | none => none

/-- The value of a field that has a value for when it is left out. -/
def orElse? {α : Type} (absent : α) (read : Document → Option α) : Option Document → Option α
  | some d => read d
  | none => some absent

/-- The name of an alternative, and its content if it is written with one. -/
def variant? : Document → Option (String × Option Document)
  | .text name => some (name, none)
  | .object [(name, content)] => some (name, some content)
  | _ => none

/-- The alternative has no content, or null for one. -/
def isBare : Option Document → Bool
  | none | some .null => true
  | _ => false

end SurveyTables.Document

import SurveyTables.Variable.Record

/-!
# Questionnaires

A questionnaire lists the variables of a survey in order, each id once. It also knows by which
separator the id of a question and the name of an option are joined, and whether its variables have
been gathered into questions.

* `Questionnaire`, `Questionnaire.ids`, `Questionnaire.find?`;
* `Questionnaire.add`: a variable at the end, in place of an older one with its id;
  `Questionnaire.remove`: a variable taken out, if it is there;
* `Questionnaire.ofList`, `Questionnaire.ofRecords`.
-/

namespace SurveyTables

/-- Variables in order. -/
structure Questionnaire where
  catalog : Catalog Variable.id := .empty
  /-- The variables are questions. -/
  hierarchical : Bool := false
  /-- What stands between the id of a question and the name of an option. -/
  separator : String := "_"
  deriving DecidableEq

/-- An id belongs to no variable. -/
structure UnknownVariable where
  id : String
  deriving DecidableEq, Repr

/-- The error as a text. -/
def UnknownVariable.message (e : UnknownVariable) : String :=
  "Unknown variable: " ++ e.id

namespace Questionnaire

/-- The variables in order. -/
def toList (q : Questionnaire) : List Variable :=
  q.catalog.toList

/-- The ids of the variables in order. -/
def ids (q : Questionnaire) : List String :=
  q.catalog.keys

/-- How many variables there are. -/
def size (q : Questionnaire) : Nat :=
  q.catalog.size

/-- There are no variables. -/
def isEmpty (q : Questionnaire) : Bool :=
  q.catalog.isEmpty

/-- There is a variable with the id. -/
def contains (q : Questionnaire) (id : String) : Bool :=
  q.catalog.contains id

/-- The variable with the id. -/
def find? (q : Questionnaire) (id : String) : Option Variable :=
  q.catalog.find? id

/-- The variable with the id, which has to be there. -/
def get (q : Questionnaire) (id : String) : Except UnknownVariable Variable :=
  match q.find? id with
  | some v => .ok v
  | none => .error { id }

/-- The questionnaire with the variable at the end, without an older one with its id. -/
def add (q : Questionnaire) (v : Variable) : Questionnaire :=
  { q with catalog := q.catalog.renew v }

/-- The variable with the id, which has to be there, and the questionnaire that is left. -/
def remove (q : Questionnaire) (id : String) : Except UnknownVariable Variable × Questionnaire :=
  match q.catalog.take id with
  | (some v, catalog) => (.ok v, { q with catalog })
  | (none, catalog) => (.error { id }, { q with catalog })

/-- The older variable with the id of the new one, if there is one, and the questionnaire that has the new
one at the end in its place. -/
def addReplacing (q : Questionnaire) (v : Variable) : Option Variable × Questionnaire :=
  match q.remove v.id with
  | (.ok old, q) => (some old, { q with catalog := q.catalog.push v })
  | (.error _, q) => (none, { q with catalog := q.catalog.push v })

/-- The questionnaire of the variables, each added in turn. -/
def ofList (vs : List Variable) : Questionnaire :=
  vs.foldl add {}

/-- The questionnaire of the variables that the records describe, or the error of the first record
that describes none. -/
def ofRecords (records : List Document) : Except RecordError Questionnaire :=
  ofList <$> Variable.ofRecords records

end Questionnaire

end SurveyTables

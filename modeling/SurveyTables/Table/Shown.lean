import SurveyTables.Questionnaire.Basic
import SurveyTables.Table.Basic

/-!
# Labels as a reader sees them

The labels of a table hold ids and codes. A questionnaire says how they are shown to a reader.

* `baseId`, `totalId`: what stands for an id where a label has none;
* `Questionnaire.lookup?`: a variable, or a variable of a question;
* `Questionnaire.shownPath`, `Table.shownRows`, `Table.shownColumns`.
-/

namespace SurveyTables

/-- Stands for an id in the label of the base row. -/
def baseId : String := "$BASE$"

/-- Stands for an id in the label of the total column. -/
def totalId : String := "$TOTAL$"

namespace Questionnaire

/-- The variable with the id, or else the first child with it of a variable. -/
def lookup? (q : Questionnaire) (id : String) : Option Variable :=
  (q.find? id).or ((q.toList.flatMap Variable.children).find? (·.id == id))

/-- A pair of a label as a reader sees it: the labels of the variable and of the value, or the id and
the value themselves where there is no label. -/
def shownPair (q : Questionnaire) (pair : Pair) : Pair :=
  if pair.1 = baseId ∨ pair.1 = totalId then pair
  else
    match q.lookup? pair.1 with
    | some v =>
      (if v.label.isEmpty then pair.1 else v.label, (v.valueLabel? pair.2).getD pair.2)
    | none => pair

/-- A path as a reader sees it. -/
def shownPath (q : Questionnaire) (p : Path) : List String :=
  Path.flat (p.map q.shownPair)

end Questionnaire

namespace Table

variable {α : Type}

/-- The labels of the rows as a reader sees them. -/
def shownRows (t : Table α) (q : Questionnaire) : List (List String) :=
  t.rows.map fun l => q.shownPath l.path

/-- The labels of the columns as a reader sees them. -/
def shownColumns (t : Table α) (q : Questionnaire) : List (List String) :=
  t.columns.map fun l => q.shownPath l.path

end Table

end SurveyTables

import SurveyTables.Design.Basic
import SurveyTables.Responses.Basic
import SurveyTables.Table.Options

/-!
# Weights

A respondent is included who has answered a variable of the rows and has a weight.

* `hasAnswered`: a respondent has answered one of several variables;
* `weightOf?`: the weight of a respondent, if included; `weights`: of all respondents.
-/

namespace SurveyTables.Tabulation

/-- The respondent has an answer in one of the columns. -/
def hasAnswered (columns : List Column) (respondent : Nat) : Bool :=
  columns.any fun c => !(c.answer respondent).isMissing

/-- The weight of a respondent who has answered a variable of the rows; without a column of weights
it is 1. -/
def weightOf? (rows : List Column) (weight : Option Column) (respondent : Nat) : Option Float :=
  if hasAnswered rows respondent then
    match weight with
    | some c => (c.answer respondent).weight?
    | none => some 1.0
  else none

/-- The weights of all respondents; `none` for one who is not included. -/
def weights (r : Responses) (d : Design) (o : Options) : List (Option Float) :=
  let rows := r.columnsOf d.rowVariableIds
  let weight := o.weight.bind r.column?
  (List.range r.respondents).map (weightOf? rows weight)

end SurveyTables.Tabulation

import SurveyTables.Questionnaire.Basic

/-!
# Questions

Where a question allows several answers, there is one variable for each option, and their ids are
the id of the question, the separator and the option. Gathering puts the variables of each question
under one variable for the question: with `_` between, `q1`, `q2_1` and `q2_2` become `q1` with the
child `q1`, and `q2` with the children `q2_1` and `q2_2`.

* `beforeFirst`: the part of a text before a separator; `Questionnaire.questionId`;
* `Question`: a question with its variables, and `Question.toVariable`, the variable for it;
* `Questionnaire.questions`: the questions, found in one pass through the variables;
* `Questionnaire.gathered`.
-/

namespace SurveyTables

namespace Questionnaire

/-- The characters before the first place where the separator stands; all if it stands nowhere. -/
def beforeFirst (separator : List Char) : List Char → List Char
  | [] => []
  | c :: cs =>
    if separator.isPrefixOf (c :: cs) then [] else c :: beforeFirst separator cs

/-- The id of the question that a variable belongs to. An exception is a question of its own, and so
is every variable if the separator is empty. -/
def questionId (separator : String) (exceptions : List String) (id : String) : String :=
  if separator.isEmpty || exceptions.contains id then id
  else String.ofList (beforeFirst separator.toList id.toList)

/-- A question with its variables, of which there is at least one. -/
structure Question where
  id : String
  first : Variable
  others : List Variable := []

namespace Question

/-- The variables of the question, in order. -/
def members (question : Question) : List Variable :=
  question.first :: question.others

/-- The value labels of the variables together; of two labels of a code the later counts. -/
def values (question : Question) : Labels :=
  question.members.foldl (fun values v => values.merge v.values) question.first.values

/-- The variable for the question. All but the id, the value labels and the children it has from its
first variable. -/
def toVariable (question : Question) : Variable :=
  { question.first with
    id := question.id
    values := question.values
    children := question.first.children ++ question.members }

/-- The question with one more variable. -/
def add (question : Question) (v : Variable) : Question :=
  { question with others := question.others ++ [v] }

end Question

/-- The questions with one more variable, which belongs to the question with the id. -/
def noteMember (questions : Catalog Question.id) (id : String) (v : Variable) : Catalog Question.id :=
  match questions.find? id with
  | some question => questions.put (question.add v)
  | none => questions.push { id, first := v }

/-- The questions of the variables, in the order in which their first variables stand. -/
def questions (q : Questionnaire) (exceptions : List String) : Catalog Question.id :=
  q.toList.foldl (fun questions v => noteMember questions (questionId q.separator exceptions v.id) v)
    .empty

/-- The questionnaire of the questions. One whose variables are questions stays as it is. -/
def gathered (q : Questionnaire) (exceptions : List String) : Questionnaire :=
  if q.hierarchical then q
  else
    ((q.questions exceptions).toList.map Question.toVariable).foldl add
      { hierarchical := true, separator := q.separator }

end Questionnaire

end SurveyTables

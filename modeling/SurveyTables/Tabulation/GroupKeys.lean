import SurveyTables.Expression.Groups
import SurveyTables.Responses.Basic
import SurveyTables.Table.Key

/-!
# Keys of a group

The respondents who have answered all variables of a group fall into classes: those who gave the
same answers, as far as the key of the answers tells. The classes are numbered in the order in which
they first come up.

* `answersOf?`: what a respondent said about all variables of a group;
* `groupKey`: the key of such answers;
* `KeyEntry`, `GroupKeys`: the classes of a group, and the class of every respondent;
* `GroupKeys.build`; `GroupKeys.sorted`: the classes in the order of their answers.
-/

namespace SurveyTables.Tabulation

/-- What the respondent said in the columns, if there is an answer in each of them. -/
def answersOf? (columns : List Column) (respondent : Nat) : Option (List Answer) :=
  let answers := columns.map (·.answer respondent)
  if answers.any Answer.isMissing then none else some answers

/-- The path of the answers to the variables of a group. -/
def groupPath (g : Group) (answers : List Answer) : Path :=
  g.zip (answers.map Answer.display)

/-- The key of the answers to the variables of a group. -/
def groupKey (g : Group) (answers : List Answer) : String :=
  Key.encode (groupPath g answers)

/-- A class of respondents: the key of their answers, and the answers of the first of them. -/
structure KeyEntry where
  key : String
  answers : List Answer
  deriving DecidableEq, Repr, Inhabited

/-- The order of classes: by their answers, then by their keys. -/
def KeyEntry.order (a b : KeyEntry) : Ordering :=
  (Answer.orderAll a.answers b.answers).then (compare a.key b.key)

/-- The classes of a group, and for every respondent the number of the class, if there is one. -/
structure GroupKeys where
  entries : Catalog KeyEntry.key := .empty
  marks : Array (Option Nat) := #[]

namespace GroupKeys

/-- The classes with one more respondent, who gave the answers or is left out. -/
def note (g : Group) (k : GroupKeys) (answers : Option (List Answer)) : GroupKeys :=
  match answers with
  | none => { k with marks := k.marks.push none }
  | some answers =>
    let entry : KeyEntry := { key := groupKey g answers, answers }
    let place := (k.entries.position? entry.key).getD k.entries.size
    { entries := k.entries.add entry, marks := k.marks.push (some place) }

/-- The classes of a group, where every respondent gave the answers or is left out. -/
def ofAnswers (g : Group) (answers : List (Option (List Answer))) : GroupKeys :=
  answers.foldl (note g) {}

/-- The classes of a group among the respondents who have a weight. -/
def build {α : Type} (r : Responses) (weights : List (Option α)) (g : Group) : GroupKeys :=
  let columns := r.columnsOf g
  ofAnswers g (weights.mapIdx fun respondent w => w.bind fun _ => answersOf? columns respondent)

/-- The number of the class of a respondent. -/
def mark? (k : GroupKeys) (respondent : Nat) : Option Nat :=
  (k.marks[respondent]?).join

/-- The classes with their numbers, in order. -/
def sorted (k : GroupKeys) : List (KeyEntry × Nat) :=
  k.entries.toList.zipIdx.mergeSort fun a b => a.1.order b.1 != .gt

end GroupKeys

end SurveyTables.Tabulation

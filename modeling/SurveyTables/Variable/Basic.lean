import SurveyTables.Variable.Labels

/-!
# Variables

A variable of a questionnaire: its id, how its answers are stored and asked for, its label, the
labels of its answer codes, and, for a question of several variables, these as its children.

* `Variable`, `Variable.isQuestion`, `Variable.valueLabel?`.
-/

namespace SurveyTables

/-- A variable, or a question of several variables. -/
structure Variable where
  id : String
  /-- How answers are stored, such as `int` or `string`. -/
  valueType : Option String := none
  label : String := ""
  values : Labels := .empty
  children : List Variable := []
  /-- How the question is asked, such as `radio` or `checkbox`. -/
  questionType : Option String := none

namespace Variable

/-- The variable is a question of several variables. -/
def isQuestion (v : Variable) : Bool :=
  !v.children.isEmpty

/-- The label of an answer code. -/
def valueLabel? (v : Variable) (code : String) : Option String :=
  v.values.label? code

instance : Inhabited Variable := ⟨{ id := "" }⟩

mutual

/-- Equality of variables can be decided. -/
def decEq : (v w : Variable) → Decidable (v = w)
  | ⟨i, t, l, vs, cs, q⟩, ⟨i', t', l', vs', cs', q'⟩ =>
    if h : i = i' ∧ t = t' ∧ l = l' ∧ vs = vs' ∧ q = q' then
      match decEqAll cs cs' with
      | isTrue hcs => isTrue (by obtain ⟨rfl, rfl, rfl, rfl, rfl⟩ := h; rw [hcs])
      | isFalse hcs => isFalse fun e => hcs (by injection e)
    else
      isFalse fun e => h (by injection e; exact ⟨‹_›, ‹_›, ‹_›, ‹_›, ‹_›⟩)

/-- Equality of lists of variables can be decided. -/
def decEqAll : (vs ws : List Variable) → Decidable (vs = ws)
  | [], [] => isTrue rfl
  | [], _ :: _ => isFalse nofun
  | _ :: _, [] => isFalse nofun
  | v :: vs, w :: ws =>
    match decEq v w, decEqAll vs ws with
    | isTrue hv, isTrue hvs => isTrue (by rw [hv, hvs])
    | isFalse hv, _ => isFalse fun e => hv (by injection e)
    | _, isFalse hvs => isFalse fun e => hvs (by injection e)

end

instance : DecidableEq Variable := decEq

end Variable

end SurveyTables

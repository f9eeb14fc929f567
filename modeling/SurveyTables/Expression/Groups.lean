import SurveyTables.Expression.Basic

/-!
# Groups of an expression

An axis is a list of groups, each one drill-down of variables. An expression stands for the list of
all its choices: a sum offers the choices of its items one after the other, a chain takes one choice
of every item, the leftmost changing slowest.

* `Group`, `Group.text`;
* `Expression.groups`.
-/

namespace SurveyTables

/-- One drill-down: variable ids, the outermost first. -/
abbrev Group : Type := List String

/-- The group in words. -/
def Group.text (g : Group) : String :=
  " > ".intercalate g

namespace Expression

mutual

/-- The groups that the expression stands for. -/
def groups : Expression → List Group
  | .single id => [[id]]
  | .nest items => groupsNested items
  | .sum items => groupsStacked items
  | .paren inner => inner.groups

/-- The groups of the items, one item after the other. -/
def groupsStacked : List Expression → List Group
  | [] => []
  | e :: es => e.groups ++ groupsStacked es

/-- One group of every item, joined in order; the groups of the first item change slowest. -/
def groupsNested : List Expression → List Group
  | [] => [[]]
  | e :: es =>
    let inner := groupsNested es
    e.groups.flatMap fun g => inner.map fun h => g ++ h

end

theorem groupsStacked_eq (es : List Expression) : groupsStacked es = es.flatMap groups := by
  induction es with
  | nil => rfl
  | cons e es ih => rw [groupsStacked, ih, List.flatMap_cons]

end Expression

end SurveyTables

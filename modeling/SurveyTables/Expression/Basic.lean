/-!
# Table expressions

An expression says which variables make up one axis of a table: a variable, a drill-down chain
`a > b`, a stack of independent parts `a + b`, or a part in parentheses.

* `Expression.ids`: the id of every variable, left to right;
* `Expression.text`: the expression as it is written.
-/

namespace SurveyTables

/-- What makes up one axis of a table. -/
inductive Expression where
  | single (id : String)
  | nest (items : List Expression)
  | sum (items : List Expression)
  | paren (inner : Expression)
  deriving Repr

namespace Expression

mutual

/-- Equality of expressions can be decided. -/
def decEq : (e f : Expression) → Decidable (e = f)
  | .single a, .single b => decidable_of_iff (a = b) (by simp)
  | .nest es, .nest fs =>
    match decEqAll es fs with
    | isTrue h => isTrue (by rw [h])
    | isFalse h => isFalse fun e => h (by injection e)
  | .sum es, .sum fs =>
    match decEqAll es fs with
    | isTrue h => isTrue (by rw [h])
    | isFalse h => isFalse fun e => h (by injection e)
  | .paren e, .paren f =>
    match decEq e f with
    | isTrue h => isTrue (by rw [h])
    | isFalse h => isFalse fun e => h (by injection e)
  | .single _, .nest _ | .single _, .sum _ | .single _, .paren _
  | .nest _, .single _ | .nest _, .sum _ | .nest _, .paren _
  | .sum _, .single _ | .sum _, .nest _ | .sum _, .paren _
  | .paren _, .single _ | .paren _, .nest _ | .paren _, .sum _ => isFalse nofun

/-- Equality of lists of expressions can be decided. -/
def decEqAll : (es fs : List Expression) → Decidable (es = fs)
  | [], [] => isTrue rfl
  | [], _ :: _ => isFalse nofun
  | _ :: _, [] => isFalse nofun
  | e :: es, f :: fs =>
    match decEq e f, decEqAll es fs with
    | isTrue h, isTrue hs => isTrue (by rw [h, hs])
    | isFalse h, _ => isFalse fun e => h (by injection e)
    | _, isFalse hs => isFalse fun e => hs (by injection e)

end

instance : DecidableEq Expression := decEq

mutual

/-- The id of every variable, left to right, as often as it is written. -/
def ids : Expression → List String
  | .single id => [id]
  | .nest items => idsAll items
  | .sum items => idsAll items
  | .paren inner => inner.ids

/-- The ids in the items, one item after the other. -/
def idsAll : List Expression → List String
  | [] => []
  | e :: es => e.ids ++ idsAll es

end

mutual

/-- The expression in words, with a blank at both sides of a sign. -/
def text : Expression → String
  | .single id => id
  | .nest items => " > ".intercalate (texts items)
  | .sum items => " + ".intercalate (texts items)
  | .paren inner => "(" ++ inner.text ++ ")"

/-- The expressions in words. -/
def texts : List Expression → List String
  | [] => []
  | e :: es => e.text :: texts es

end

@[simp] theorem idsAll_eq (es : List Expression) :
    idsAll es = es.flatMap ids := by
  induction es with
  | nil => rfl
  | cons e es ih => rw [idsAll, ih, List.flatMap_cons]

@[simp] theorem texts_eq (es : List Expression) : texts es = es.map text := by
  induction es with
  | nil => rfl
  | cons e es ih => rw [texts, ih, List.map_cons]

end Expression

end SurveyTables

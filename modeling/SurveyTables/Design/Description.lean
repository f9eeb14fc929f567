import SurveyTables.Design.Basic
import SurveyTables.Design.Segments
import SurveyTables.Expression.Reader

/-!
# Reading a table description

A description has a segment for the rows, one for the columns and perhaps one for the additional
axis, each an expression. Further segments are dropped with a warning, or refused by the strict
reading.

* `Design.DescriptionError`, with its `message`; `Design.ExtraSegments`: the warning;
* `Design.ofDescriptionWithWarning`, `Design.ofDescription`, `Design.ofDescriptionStrict`.
-/

namespace SurveyTables.Design

/-- Why a text does not describe a table. -/
inductive DescriptionError where
  /-- There are only so many segments. -/
  | tooFew (found : Nat)
  /-- There are as many as this, and no segment may be dropped. -/
  | tooMany (found : Nat)
  /-- The segment of an axis is not an expression. -/
  | invalid (axis : Axis) (segment : String) (cause : Expression.ReadError)
  deriving DecidableEq, Repr

/-- The error as a text. -/
def DescriptionError.message : DescriptionError → String
  | .tooFew found =>
    "Expected at least 2 'by'-separated segments (rows by columns), found " ++ toString found
  | .tooMany found =>
    "Expected at most 3 'by'-separated segments, found " ++ toString found
  | .invalid axis segment cause =>
    "Invalid " ++ axis.text ++ " segment '" ++ segment ++ "': " ++ cause.message

/-- A description had more segments than a table has axes. -/
structure ExtraSegments where
  found : Nat
  dropped : List String
  deriving DecidableEq, Repr

/-- The warning as a text. -/
def ExtraSegments.message (w : ExtraSegments) : String :=
  toString w.found ++ " segments defined, only 3 are supported; dropped: " ++
    " | ".intercalate w.dropped

/-- The groups that a segment stands for. -/
def readAxis (axis : Axis) (segment : List Char) : Except DescriptionError (List Group) :=
  match Expression.ofText (String.ofList segment) with
  | .ok e => .ok e.groups
  | .error cause => .error (.invalid axis (String.ofList (Text.trimmedChars segment)) cause)

/-- What is dropped of the segments, if anything is. -/
def extraSegments? (all : List (List Char)) : Option ExtraSegments :=
  if 3 < all.length then
    some { found := all.length, dropped := (all.drop 3).map String.ofList }
  else
    none

/-- The design that the segments describe. -/
def ofSegments : List (List Char) → Except DescriptionError Design
  | rows :: columns :: others => do
    let rows ← readAxis .rows rows
    let columns ← readAxis .columns columns
    match others with
    | [] => return { rows, columns }
    | additional :: _ =>
      let additional ← readAxis .additional additional
      return { rows, columns, additional := some additional }
  | found => .error (.tooFew found.length)

/-- The design that a text describes, with a warning if segments are dropped. -/
def ofDescriptionWithWarning (text : String) :
    Except DescriptionError (Design × Option ExtraSegments) := do
  let all := (segments text.toList).toList
  let design ← ofSegments all
  return (design, extraSegments? all)

/-- The design that a text describes. -/
def ofDescription (text : String) : Except DescriptionError Design :=
  (·.1) <$> ofDescriptionWithWarning text

/-- The design that a text describes, if it has no segment too many. -/
def ofDescriptionStrict (text : String) : Except DescriptionError Design :=
  let found := (segments text.toList).toList.length
  if 3 < found then .error (.tooMany found) else ofDescription text

end SurveyTables.Design

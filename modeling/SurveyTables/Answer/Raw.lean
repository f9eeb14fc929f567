import SurveyTables.Number.Magnitude

/-!
# Answers bit by bit

An answer as it is held, with a number as its 64 bits, so that one NaN may differ from another.

* `RawAnswer`;
* `RawAnswer.order`, `RawAnswer.orderAll`: the order of answers and of rows of answers;
* `RawAnswer.sorted`.
-/

namespace SurveyTables

/-- What a respondent said about a variable, bit by bit. -/
inductive RawAnswer where
  | missing
  | number (bits : UInt64)
  | text (s : String)
  | boolean (b : Bool)
  deriving DecidableEq, Repr, Inhabited

namespace RawAnswer

/-- The order of answers: missing, then numbers by rank, then texts by code points, then false and
true. -/
def order : RawAnswer → RawAnswer → Ordering
  | .missing, .missing => .eq
  | .missing, _ => .lt
  | _, .missing => .gt
  | .number x, .number y => compare (Number.rank x) (Number.rank y)
  | .number _, _ => .lt
  | _, .number _ => .gt
  | .text s, .text t => compare s t
  | .text _, _ => .lt
  | _, .text _ => .gt
  | .boolean a, .boolean b => compare a b

/-- The order of rows of answers: by the first answer that differs, a shorter row first. -/
def orderAll : List RawAnswer → List RawAnswer → Ordering
  | [], [] => .eq
  | [], _ :: _ => .lt
  | _ :: _, [] => .gt
  | a :: as, b :: bs => (a.order b).then (orderAll as bs)

/-- The answers in order; those that are equal in order stay as they were. -/
def sorted (answers : List RawAnswer) : List RawAnswer :=
  answers.mergeSort fun a b => a.order b != .gt

end RawAnswer

end SurveyTables

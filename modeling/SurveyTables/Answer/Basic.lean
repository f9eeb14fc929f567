import SurveyTables.Answer.Raw
import SurveyTables.Number.Shortest

/-!
# Answers

What one respondent said about one variable: nothing, a number, a text or a truth value.

* `Answer`, `Answer.isMissing`;
* `Answer.weight?`: the number that an answer counts for;
* `Answer.text`: the answer as it is written in labels and keys;
* `Answer.same`: equality of answers, with numbers compared as numbers;
* `Answer.raw`, `RawAnswer.answer`: the answer bit by bit, and back;
* `Answer.order`, `Answer.orderAll`: the order of answers and of rows of answers.
-/

namespace SurveyTables

/-- What a respondent said about a variable. -/
inductive Answer where
  | missing
  | number (x : Float)
  | text (s : String)
  | boolean (b : Bool)
  deriving DecidableEq, Repr, Inhabited

namespace Answer

/-- There is no answer. A number that is NaN is none. -/
def isMissing : Answer → Bool
  | .missing => true
  | .number x => Number.isNaN x
  | _ => false

/-- The number that the answer counts for as a weight. A text counts for none. -/
def weight? : Answer → Option Float
  | .number x => if Number.isNaN x then none else some x
  | .boolean b => some (if b then 1.0 else 0.0)
  | _ => none

/-- The answer in words. -/
def display : Answer → String
  | .missing => ""
  | .number x => Number.text x
  | .text s => s
  | .boolean b => if b then "TRUE" else "FALSE"

/-- The same answer, where numbers are compared as numbers: `0.0` and `-0.0` are the same, and NaN
is not the same as itself. -/
def same : Answer → Answer → Bool
  | .missing, .missing => true
  | .number x, .number y => x == y
  | .text s, .text t => s == t
  | .boolean a, .boolean b => a == b
  | _, _ => false

/-- The answer bit by bit. -/
def raw : Answer → RawAnswer
  | .missing => .missing
  | .number x => .number x.toBits
  | .text s => .text s
  | .boolean b => .boolean b

/-- The order of answers, which is that of their bits. -/
def order (a b : Answer) : Ordering :=
  a.raw.order b.raw

/-- The order of rows of answers, which is that of their bits. -/
def orderAll (as bs : List Answer) : Ordering :=
  RawAnswer.orderAll (as.map raw) (bs.map raw)

/-- A number as an answer; NaN is no answer. -/
def ofFloat (x : Float) : Answer :=
  if Number.isNaN x then .missing else .number x

/-- A whole number as an answer, as the nearest double. -/
def ofInt (n : Int) : Answer :=
  .number (Float.ofInt n)

/-- What may be absent as an answer. -/
def ofOption {α : Type} (answer : α → Answer) : Option α → Answer
  | some a => answer a
  | none => .missing

end Answer

/-- The answer with the bits, where a NaN is a NaN, whatever its other bits are. -/
def RawAnswer.answer : RawAnswer → Answer
  | .missing => .missing
  | .number bits => .number (Float.ofBits bits)
  | .text s => .text s
  | .boolean b => .boolean b

end SurveyTables

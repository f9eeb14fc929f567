import SurveyTables.Number.Decimal
import SurveyTables.Number.Magnitude

/-!
# The shortest decimal that reads back

The numbers that round to a double form an interval around it. Of the decimals in the interval, the
shortest are the multiples of the highest power of ten that has a multiple there, and of those the
one nearest to the double is taken.

* `Interval`, `interval`: the interval in whole units of a power of ten;
* `Tie`: which of two is taken that are equally near;
* `Interval.nearest?`, `Interval.roundest`, `shortest`: the search;
* `text`: a double in its shortest digits, written out;
* `pointedText`: the same, always with a point.
-/

namespace SurveyTables.Number

/-- The numbers that round to a double, in units of `10 ^ -places`. -/
structure Interval where
  low : Nat
  middle : Nat
  high : Nat
  /-- The ends round to the double as well. -/
  closed : Bool
  places : Nat
  deriving DecidableEq, Repr

/-- The numbers that round to `mantissa * 2 ^ (scale - 1075)`. The ends lie halfway to its
neighbours, and the lower neighbour of a power of two is nearer than the upper one. -/
def interval (mantissa scale : Nat) : Interval :=
  let unit := Nat.pow 2 (scale - 1077) * Nat.pow 5 (1077 - scale)
  let below := if mantissa = leadingBit ∧ 1 < scale then 1 else 2
  { low := (4 * mantissa - below) * unit
    middle := 4 * mantissa * unit
    high := (4 * mantissa + 2) * unit
    closed := mantissa % 2 == 0
    places := 1077 - scale }

/-- Which of two neighbours is taken that are equally near. -/
inductive Tie where
  | upper
  | even
  deriving DecidableEq, Repr

/-- The one of `n` and `n + 1` that is taken. -/
def Tie.choose (tie : Tie) (n : Nat) : Nat :=
  match tie with
  | .upper => n + 1
  | .even => n + n % 2

namespace Interval

/-- The number lies in the interval. -/
def holds (i : Interval) (n : Nat) : Bool :=
  if i.closed then i.low ≤ n && n ≤ i.high else i.low < n && n < i.high

/-- The coefficient of the multiple of `step` in the interval that is nearest to the middle. -/
def nearest? (tie : Tie) (i : Interval) (step : Nat) : Option Nat :=
  let below := i.middle / step
  let above := below + 1
  match i.holds (below * step), i.holds (above * step) with
  | true, true =>
    match compare (i.middle - below * step) (above * step - i.middle) with
    | .lt => some below
    | .eq => some (tie.choose below)
    | .gt => some above
  | true, false => some below
  | false, true => some above
  | false, false => none

/-- The nearest multiple of the highest power of ten that has one in the interval, the powers tried
from the given one downwards. -/
def roundest (tie : Tie) (i : Interval) : Nat → Decimal
  | 0 => { coefficient := i.middle, exponent := -i.places }
  | power + 1 =>
    match i.nearest? tie (Nat.pow 10 (power + 1)) with
    | some n => { coefficient := n, exponent := (power + 1 : Nat) - i.places }
    | none => roundest tie i power

end Interval

/-- The shortest decimal that rounds to `mantissa * 2 ^ (scale - 1075)`. -/
def shortest (tie : Tie) (mantissa scale : Nat) : Decimal :=
  if mantissa = 0 then
    { coefficient := 0, exponent := 0 }
  else
    let i := interval mantissa scale
    i.roundest tie (i.high.log2 / 3 + 1)

/-- The sign in front of a negative double. -/
def sign (x : Float) : String :=
  if isNegative x then "-" else ""

/-- A double in its shortest digits, written out; of two equally near the larger magnitude. -/
def text (x : Float) : String :=
  match magnitude x with
  | .nan => "NaN"
  | .infinite => sign x ++ "inf"
  | .finite mantissa scale => sign x ++ (shortest .upper mantissa scale).positional

/-- A double in its shortest digits, always with a point or an exponent; of two equally near the one
whose last digit is even. A double that is not finite has no such text. -/
def pointedText (x : Float) : String :=
  match magnitude x with
  | .finite mantissa scale => sign x ++ (shortest .even mantissa scale).pointed
  | _ => "null"

end SurveyTables.Number

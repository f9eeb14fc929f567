/-!
# Decimal numbers

A decimal number is a whole coefficient times a power of ten.

* `Decimal`;
* `Decimal.positional`: written out without an exponent;
* `Decimal.pointed`: written with a point, or with an exponent if it is very large or very small.
-/

namespace SurveyTables.Number

/-- The number `coefficient * 10 ^ exponent`. -/
structure Decimal where
  coefficient : Nat
  exponent : Int
  deriving DecidableEq, Repr

namespace Decimal

/-- The decimal digits of a whole number. -/
def digits (n : Nat) : List Char :=
  Nat.toDigits 10 n

/-- The digits, filled up with zeros at the left to at least the given width. -/
def padded (width n : Nat) : List Char :=
  List.replicate (width - (digits n).length) '0' ++ digits n

/-- The digits in front of the point. -/
def wholePart (d : Decimal) : Nat :=
  match d.exponent with
  | .ofNat zeros => d.coefficient * Nat.pow 10 zeros
  | .negSucc n => d.coefficient / Nat.pow 10 (n + 1)

/-- The digits behind the point; none for a power of ten that is not negative. -/
def places (d : Decimal) : List Char :=
  match d.exponent with
  | .ofNat _ => []
  | .negSucc n => padded (n + 1) (d.coefficient % Nat.pow 10 (n + 1))

/-- Written out: all digits, and a point only where digits stand behind it. -/
def positionalChars (d : Decimal) : List Char :=
  match d.places with
  | [] => digits d.wholePart
  | behind => digits d.wholePart ++ '.' :: behind

/-- The decimal without an exponent. -/
def positional (d : Decimal) : String :=
  String.ofList d.positionalChars

/-- The exponent of the first digit. -/
def leadingExponent (d : Decimal) : Int :=
  d.exponent + (digits d.coefficient).length - 1

/-- Written with digits behind the point in any case. -/
def pointedChars (d : Decimal) : List Char :=
  match d.places with
  | [] => digits d.wholePart ++ ['.', '0']
  | behind => digits d.wholePart ++ '.' :: behind

/-- Written with the point behind the first digit, and an exponent. -/
def scientificChars (d : Decimal) : List Char :=
  let exponent := 'e' :: (toString d.leadingExponent).toList
  match digits d.coefficient with
  | first :: second :: others => first :: '.' :: second :: others ++ exponent
  | short => short ++ exponent

/-- Written with a point, the first digit standing at most 16 places before and 5 places behind it,
otherwise with an exponent. -/
def pointed (d : Decimal) : String :=
  String.ofList <|
    if d.coefficient = 0 ∨ (-5 ≤ d.leadingExponent ∧ d.leadingExponent < 16) then d.pointedChars
    else d.scientificChars

end Decimal

end SurveyTables.Number

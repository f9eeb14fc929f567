/-!
# Magnitudes of doubles

A finite double is a sign and a magnitude `mantissa * 2 ^ (scale - 1075)`, where `scale` is at
least `1`, and the mantissa is below `2 ^ 53`.

* `isNegative`, `Magnitude`, `magnitude`: a double taken apart;
* `isNaN`, `isFinite`;
* `rank`: the place of the bits of a double in their total order, `-0.0` right below `0.0`.
-/

namespace SurveyTables.Number

/-- The value of the sign bit. -/
def signBit : Nat := 0x8000000000000000

/-- The value of the first bit of a mantissa, which is `2 ^ 52`. -/
def leadingBit : Nat := 0x10000000000000

/-- The sign bit is set. -/
def isNegative (x : Float) : Bool :=
  signBit ≤ x.toBits.toNat

/-- A double without its sign. -/
inductive Magnitude where
  | nan
  | infinite
  /-- `mantissa * 2 ^ (scale - 1075)`. -/
  | finite (mantissa scale : Nat)
  deriving DecidableEq, Repr

/-- The double without its sign. -/
def magnitude (x : Float) : Magnitude :=
  let bits := x.toBits.toNat % signBit
  let fraction := bits % leadingBit
  match bits / leadingBit with
  | 0 => .finite fraction 1
  | 2047 => if fraction = 0 then .infinite else .nan
  | scale => .finite (leadingBit + fraction) scale

/-- The double is no number. -/
def isNaN (x : Float) : Bool :=
  magnitude x == .nan

/-- The double is a finite number. -/
def isFinite (x : Float) : Bool :=
  match magnitude x with
  | .finite _ _ => true
  | _ => false

/-- The place of the bits of a double in their total order: negative ones by falling magnitude, then the
others by rising magnitude. A NaN has a place by its bits too. -/
def rank (bits : UInt64) : Int :=
  if signBit ≤ bits.toNat then (signBit : Int) - 1 - bits.toNat else bits.toNat

end SurveyTables.Number

import SurveyTables.Proofs.Number.Sums
import SurveyTables.Proofs.Number.Magnitude

/-!
# The order of doubles

Without its sign, a double stands so many steps above zero as its other bits say, and each step leads to
the next larger number. The rank follows these steps, and so does the comparison of doubles as numbers.

* `steps`, `place`: the steps from zero to a double, without and with its sign;
* `isNaN_eq_false_iff`, `exists_steps_eq`: the steps that lead to a double;
* `toBits_ofBits`, `isNaN_ofBits_eq_false_iff`: which bits are those of a number;
* `IsAt`, `isAt_unpack_packComponents`, **`compare_of_isAt`**: doubles are compared by their places;
* **`lt_iff_place_lt`**, `beq_iff_place_eq`;
* **`rank_lt_rank_iff`**: of different numbers the smaller one has the smaller rank.
-/

namespace SurveyTables.Number

open Float.Model (Format UnpackedFloat)
open Float.Model.UnpackedFloat

variable {x y : Float}

/-! ## Steps -/

/-- How many doubles stand between zero and the double, itself included. -/
def steps (x : Float) : Nat :=
  x.toBits.toNat % signBit

/-- The steps from zero to infinity. -/
def stepsToInfinity : Nat :=
  2047 * leadingBit

/-- The place of a double, counted from zero in both directions. -/
def place (x : Float) : Int :=
  if isNegative x then -steps x else steps x

theorem toNat_toBits (x : Float) :
    x.toBits.toNat = (if isNegative x then signBit else 0) + steps x := by
  have hlt := x.toBits.toNat_lt
  unfold isNegative steps signBit at *
  simp only [decide_eq_true_eq]
  split <;> omega

theorem steps_lt (x : Float) : steps x < signBit :=
  Nat.mod_lt _ (by decide)

theorem isNaN_eq_false_iff : isNaN x = false ↔ steps x ≤ stepsToInfinity := by
  have hdiv := Nat.div_add_mod (steps x) leadingBit
  have hmod := Nat.mod_lt (steps x) (show leadingBit > 0 by decide)
  have hlt := steps_lt x
  rw [isNaN, magnitude_eq, show x.toBits.toNat % signBit = steps x from rfl]
  generalize steps x % leadingBit = fraction at *
  generalize steps x / leadingBit = exponent at *
  unfold stepsToInfinity leadingBit signBit at *
  split_ifs with h0 h1 h2
  · exact iff_of_true rfl (by omega)
  · exact iff_of_true rfl (by omega)
  · exact iff_of_false (by decide) (by omega)
  · exact iff_of_true rfl (by omega)

theorem eq_of_steps_eq (hsign : isNegative x = isNegative y) (h : steps x = steps y) : x = y := by
  apply Float.toBits_inj.mp
  apply UInt64.toNat_inj.mp
  rw [toNat_toBits, toNat_toBits, hsign, h]

/-! ## The fields of a double -/

theorem toNat_unpackExponent (b : BitVec 64) :
    (@unpackExponent Format.binary64 b).toNat = b.toNat % signBit / leadingBit := by
  rw [unpackExponent_def, BitVec.extractLsb'_toNat]
  show b.toNat >>> 52 % 2 ^ 11 = _
  rw [Nat.shiftRight_eq_div_pow]
  unfold signBit leadingBit
  omega

theorem toNat_unpackMantissa (b : BitVec 64) :
    (@unpackMantissa Format.binary64 b).toNat = b.toNat % signBit % leadingBit := by
  rw [unpackMantissa_def, BitVec.extractLsb'_toNat]
  show b.toNat >>> 0 % 2 ^ 52 = _
  unfold signBit leadingBit
  omega

theorem toNat_unpackSign (b : BitVec 64) :
    (@unpackSign Format.binary64 b).toNat = b.toNat / signBit := by
  have hlt := b.isLt
  rw [unpackSign_def, BitVec.extractLsb'_toNat]
  show b.toNat >>> 63 % 2 ^ 1 = _
  rw [Nat.shiftRight_eq_div_pow]
  unfold signBit
  omega

theorem valid_of_le {b : BitVec 64} (h : b.toNat % signBit ≤ stepsToInfinity) :
    Format.binary64.Valid b := by
  refine ⟨fun hexponent hmantissa => absurd ?_ hmantissa⟩
  have hexponent := congrArg BitVec.toNat hexponent
  apply BitVec.eq_of_toNat_eq
  change (@unpackExponent Format.binary64 b).toNat = 2047 at hexponent
  change (@unpackMantissa Format.binary64 b).toNat = 0
  rw [toNat_unpackExponent] at hexponent
  rw [toNat_unpackMantissa]
  unfold stepsToInfinity leadingBit at *
  omega

theorem unpack_of_lt {b : BitVec 64} (h : stepsToInfinity < b.toNat % signBit) :
    unpack Format.binary64 b = .notANumber := by
  have hlt := Nat.mod_lt b.toNat (show signBit > 0 by decide)
  have hexponent : @unpackExponent Format.binary64 b = -1#_ := by
    apply BitVec.eq_of_toNat_eq
    change _ = 2047
    rw [toNat_unpackExponent]
    unfold stepsToInfinity leadingBit signBit at *
    omega
  have hmantissa : @unpackMantissa Format.binary64 b ≠ 0#_ := by
    intro hzero
    have hzero := congrArg BitVec.toNat hzero
    change _ = 0 at hzero
    rw [toNat_unpackMantissa] at hzero
    unfold stepsToInfinity leadingBit signBit at *
    omega
  rw [unpack]
  exact (if_pos hexponent).trans (if_neg hmantissa)

theorem toBits_ofBits {bits : UInt64} (h : bits.toNat % signBit ≤ stepsToInfinity) :
    (Float.ofBits bits).toBits = bits :=
  congrArg Float.toBits (Float.ofBits_toBits (.ofModel ⟨bits, valid_of_le h⟩))

theorem isNaN_ofBits_eq_false_iff {bits : UInt64} :
    isNaN (Float.ofBits bits) = false ↔ bits.toNat % signBit ≤ stepsToInfinity := by
  by_cases h : bits.toNat % signBit ≤ stepsToInfinity
  · rw [isNaN_eq_false_iff, steps, toBits_ofBits h]
  · have hnan : Float.ofBits bits = Float.ofModel (.pack .notANumber) :=
      congrArg (fun u => Float.ofModel (.pack u)) (unpack_of_lt (Nat.lt_of_not_le h))
    rw [hnan]
    exact iff_of_false (by decide +kernel) h

theorem exists_steps_eq {n : Nat} (hn : n ≤ stepsToInfinity) (negative : Bool) :
    ∃ x : Float, isNegative x = negative ∧ steps x = n := by
  obtain ⟨bits, hbits⟩ : ∃ bits, bits = (if negative then signBit else 0) + n := ⟨_, rfl⟩
  have hlt : bits < 2 ^ 64 := by
    unfold stepsToInfinity leadingBit at hn
    unfold signBit at hbits
    split at hbits <;> omega
  have htoNat : (BitVec.ofNat 64 bits).toNat = bits := by
    rw [BitVec.toNat_ofNat, Nat.mod_eq_of_lt hlt]
  have hmod : bits % signBit = n := by
    unfold stepsToInfinity leadingBit at hn
    unfold signBit at hbits ⊢
    split at hbits <;> omega
  have hvalid : Format.binary64.Valid (BitVec.ofNat 64 bits) := valid_of_le (by rwa [htoNat, hmod])
  refine ⟨.ofModel ⟨.ofBitVec (BitVec.ofNat 64 bits), hvalid⟩, ?_, ?_⟩
  · change decide (signBit ≤ (BitVec.ofNat 64 bits).toNat) = negative
    rw [htoNat]
    unfold stepsToInfinity leadingBit signBit at *
    cases negative with
    | true => exact decide_eq_true (by simp at hbits; omega)
    | false => exact decide_eq_false (by simp at hbits; omega)
  · change (BitVec.ofNat 64 bits).toNat % signBit = n
    rw [htoNat, hmod]

/-! ## Comparison -/

/-- A double that is taken apart stands at the place. -/
inductive IsAt : UnpackedFloat → Int → Prop where
  | zero (s : Sign) : IsAt (.zero s) 0
  | finite (s : Sign) {m : Nat} {e : Int} (hpos : 0 < m) (h : IsCanonical m e) (hmax : e ≤ 971) :
    IsAt (.finite s m e hpos) (s.apply ((e + 1074) * leadingBit + m))
  | infinity (s : Sign) : IsAt (.infinity s) (s.apply stepsToInfinity)

theorem place_eq_apply (x : Float) :
    place x = (Sign.ofBitVec (@unpackSign Format.binary64 x.toModel.toBits.toBitVec)).apply
      (steps x) := by
  have hsign := toNat_unpackSign x.toModel.toBits.toBitVec
  change _ = x.toBits.toNat / signBit at hsign
  have hlt := x.toBits.toNat_lt
  rw [place, Sign.ofBitVec, isNegative]
  by_cases hneg : signBit ≤ x.toBits.toNat
  · have hne : @unpackSign Format.binary64 x.toModel.toBits.toBitVec ≠ 0#1 := by
      intro h0
      rw [h0, BitVec.toNat_zero] at hsign
      unfold signBit at *
      omega
    rw [decide_eq_true hneg, if_pos rfl, if_neg hne]
    rfl
  · have hzero : @unpackSign Format.binary64 x.toModel.toBits.toBitVec = 0#1 := by
      apply BitVec.eq_of_toNat_eq
      rw [hsign, BitVec.toNat_zero, Nat.div_eq_of_lt (Nat.lt_of_not_le hneg)]
    rw [decide_eq_false hneg, if_neg Bool.false_ne_true, if_pos hzero]
    rfl

/-- The fields of a double tell its place, unless they are those of NaN. -/
theorem isAt_unpack_packComponents (s : Sign) (exponent : BitVec 11) (mantissa : BitVec 52) {n : Nat}
    (hn : leadingBit * exponent.toNat + mantissa.toNat = n) (hle : n ≤ stepsToInfinity) :
    IsAt (unpack Format.binary64 (packComponents Format.binary64 s exponent mantissa)) (s.apply n) := by
  have hlt : mantissa.toNat < 2 ^ 52 := mantissa.isLt
  rw [unpack_packComponents]
  split_ifs with hinfinite hzero hlow hzero
  · have hfull : exponent.toNat = 2047 := by rw [hinfinite]; rfl
    rw [← hn, hfull, hzero]
    exact .infinity s
  · refine absurd (BitVec.eq_of_toNat_eq (?_ : mantissa.toNat = 0)) hzero
    have hfull : exponent.toNat = 2047 := by rw [hinfinite]; rfl
    unfold stepsToInfinity leadingBit at *
    omega
  · have hnone : exponent.toNat = 0 := by rw [hlow]; rfl
    rw [← hn, hnone, hzero]
    cases s <;> exact .zero _
  · have hnone : exponent.toNat = 0 := by rw [hlow]; rfl
    have hsubnormal := IsAt.finite s (toNat_pos_of_ne_zero hzero) ⟨le_rfl, by omega, .inl rfl⟩ (by decide)
    rw [show (-1074 + 1074 : Int) = 0 by decide, Int.zero_mul, Int.zero_add] at hsubnormal
    rwa [← hn, hnone, Nat.mul_zero, Nat.zero_add]
  · have hpositive : exponent.toNat ≠ 0 := fun h0 => hlow (BitVec.eq_of_toNat_eq h0)
    have hfinite : exponent.toNat ≠ 2 ^ 11 - 1 := fun h0 => hinfinite (BitVec.eq_of_toNat_eq h0)
    have hbound : exponent.toNat < 2 ^ 11 := exponent.isLt
    have hnormal := IsAt.finite s (e := exponent.toNat - 1075) (toNat_append_pos mantissa)
      ⟨by omega, by rw [toNat_append]; omega, .inr (by rw [toNat_append]; omega)⟩ (by omega)
    have hsteps : ((exponent.toNat : Int) - 1075 + 1074) * leadingBit + (1#1 ++ mantissa).toNat = n := by
      rw [toNat_append, ← hn]
      unfold leadingBit
      omega
    rwa [hsteps] at hnormal

theorem isAt_unpack (h : isNaN x = false) : IsAt x.toModel.unpack (place x) := by
  have hsteps : leadingBit * (@unpackExponent Format.binary64 x.toModel.toBits.toBitVec).toNat +
      (@unpackMantissa Format.binary64 x.toModel.toBits.toBitVec).toNat = steps x := by
    rw [toNat_unpackExponent, toNat_unpackMantissa]
    exact Nat.div_add_mod (steps x) leadingBit
  have hfields := isAt_unpack_packComponents
    (Sign.ofBitVec (@unpackSign Format.binary64 x.toModel.toBits.toBitVec)) _ _ hsteps
    (isNaN_eq_false_iff.mp h)
  rwa [packComponents_unpackSign_unpackExponent_unpackMantissa, ← place_eq_apply] at hfields

theorem place_pos {m : Nat} {e : Int} (hpos : 0 < m) (h : IsCanonical m e) :
    0 < (e + 1074) * leadingBit + m := by
  have hmin := h.le_exponent
  unfold leadingBit
  omega

theorem place_lt {m : Nat} {e : Int} (h : IsCanonical m e) (hmax : e ≤ 971) :
    (e + 1074) * leadingBit + m < stepsToInfinity := by
  have hlt := h.mantissa_lt
  unfold stepsToInfinity leadingBit
  omega

theorem place_lt_of_exponent_lt {m m' : Nat} {e e' : Int} (h : IsCanonical m e)
    (h' : IsCanonical m' e') (hlt : e < e') :
    (e + 1074) * leadingBit + m < (e' + 1074) * leadingBit + m' := by
  have hmin := h.le_exponent
  have hmantissa := h.mantissa_lt
  have hfull := h'.full
  unfold leadingBit
  omega

theorem compare_place {m m' : Nat} {e e' : Int} (h : IsCanonical m e) (h' : IsCanonical m' e') :
    (compare e e').then (compare m m') =
      compare ((e + 1074) * leadingBit + m) ((e' + 1074) * leadingBit + m') := by
  rcases lt_trichotomy e e' with hless | rfl | hgreater
  · rw [compare_lt_iff_lt.mpr hless, compare_lt_iff_lt.mpr (place_lt_of_exponent_lt h h' hless)]
    rfl
  · rw [compare_eq_iff_eq.mpr rfl]
    show compare m m' = _
    rcases lt_trichotomy m m' with hless | rfl | hgreater
    · rw [compare_lt_iff_lt.mpr hless, compare_lt_iff_lt.mpr (by omega)]
    · rw [compare_eq_iff_eq.mpr rfl, compare_eq_iff_eq.mpr rfl]
    · rw [compare_gt_iff_gt.mpr hgreater, compare_gt_iff_gt.mpr (by omega)]
  · rw [compare_gt_iff_gt.mpr hgreater,
      compare_gt_iff_gt.mpr (place_lt_of_exponent_lt h' h hgreater)]
    rfl

theorem compare_neg (a b : Int) : compare (-a) (-b) = (compare a b).swap := by
  rcases lt_trichotomy a b with hless | rfl | hgreater
  · rw [compare_lt_iff_lt.mpr hless, compare_gt_iff_gt.mpr (by omega)]
    rfl
  · rw [compare_eq_iff_eq.mpr rfl, compare_eq_iff_eq.mpr rfl]
    rfl
  · rw [compare_gt_iff_gt.mpr hgreater, compare_lt_iff_lt.mpr (by omega)]
    rfl

theorem some_compare_of_lt {a b : Int} (h : a < b) : some .lt = some (compare a b) :=
  congrArg some (compare_lt_iff_lt.mpr h).symm

theorem some_compare_of_gt {a b : Int} (h : b < a) : some .gt = some (compare a b) :=
  congrArg some (compare_gt_iff_gt.mpr h).symm

/-- **Doubles are compared by their places.** -/
theorem compare_of_isAt {u v : UnpackedFloat} {a b : Int} (hu : IsAt u a) (hv : IsAt v b) :
    u.compare v = some (compare a b) := by
  have hinfinity : (0 : Int) < stepsToInfinity := by decide
  -- only two finite doubles of one sign are compared by more than their signs and forms
  cases hu with
  | zero s =>
    cases hv with
    | zero s' => rfl
    | finite s' hpos' h' hmax' =>
      have hplace' := place_pos hpos' h'
      cases s' with
      | positive => exact some_compare_of_lt hplace'
      | negative => exact some_compare_of_gt (neg_neg_of_pos hplace')
    | infinity s' =>
      cases s' with
      | positive => exact some_compare_of_lt hinfinity
      | negative => exact some_compare_of_gt (neg_neg_of_pos hinfinity)
  | finite s hpos h hmax =>
    have hplace := place_pos hpos h
    have hbelow := place_lt h hmax
    cases hv with
    | zero s' =>
      cases s with
      | positive => exact some_compare_of_gt hplace
      | negative => exact some_compare_of_lt (neg_neg_of_pos hplace)
    | finite s' hpos' h' hmax' =>
      have hplace' := place_pos hpos' h'
      cases s with
      | positive =>
        cases s' with
        | positive => exact congrArg some (compare_place h h')
        | negative => exact some_compare_of_gt (by simp only [Sign.apply]; omega)
      | negative =>
        cases s' with
        | positive => exact some_compare_of_lt (by simp only [Sign.apply]; omega)
        | negative =>
          simp only [UnpackedFloat.compare, Sign.apply, compare_neg]
          exact congrArg (fun o => some o.swap) (compare_place h h')
    | infinity s' =>
      cases s' with
      | positive =>
        cases s <;> exact some_compare_of_lt (by simp only [Sign.apply]; omega)
      | negative =>
        cases s <;> exact some_compare_of_gt (by simp only [Sign.apply]; omega)
  | infinity s =>
    cases hv with
    | zero s' =>
      cases s with
      | positive => exact some_compare_of_gt hinfinity
      | negative => exact some_compare_of_lt (neg_neg_of_pos hinfinity)
    | finite s' hpos' h' hmax' =>
      have hbelow' := place_lt h' hmax'
      have hplace' := place_pos hpos' h'
      cases s with
      | positive =>
        cases s' <;> exact some_compare_of_gt (by simp only [Sign.apply]; omega)
      | negative =>
        cases s' <;> exact some_compare_of_lt (by simp only [Sign.apply]; omega)
    | infinity s' => cases s <;> cases s' <;> rfl

/-! ## Places and ranks -/

section NotNaN

variable (hx : isNaN x = false) (hy : isNaN y = false)
include hx hy

/-- **Of two numbers the one is smaller that stands at the smaller place.** -/
theorem lt_iff_place_lt : x < y ↔ place x < place y := by
  have hlt : x < y ↔ x.toModel.unpack.lt y.toModel.unpack = true := decide_eq_true_iff
  rw [hlt, UnpackedFloat.lt, compare_of_isAt (isAt_unpack hx) (isAt_unpack hy), beq_iff_eq,
    Option.some_inj, compare_lt_iff_lt]

theorem beq_iff_place_eq : (x == y) = true ↔ place x = place y := by
  have heq : (x == y) = x.toModel.unpack.beq y.toModel.unpack := rfl
  rw [heq, UnpackedFloat.beq, compare_of_isAt (isAt_unpack hx) (isAt_unpack hy), beq_iff_eq,
    Option.some_inj, compare_eq_iff_eq]

end NotNaN

/-- The rank of a negative double is one less than its place, so that both zeros have one. -/
theorem rank_eq (x : Float) :
    rank x.toBits = if isNegative x then place x - 1 else place x := by
  have hbits := toNat_toBits x
  unfold rank place isNegative at *
  simp only [decide_eq_true_eq] at *
  split_ifs at hbits ⊢ <;> omega

/-- **Of numbers that are not equal the smaller one has the smaller rank.** -/
theorem rank_lt_rank_iff (hx : isNaN x = false) (hy : isNaN y = false) (hne : (x == y) = false) :
    rank x.toBits < rank y.toBits ↔ x < y := by
  have hplace : place x ≠ place y := fun h => by
    rw [(beq_iff_place_eq hx hy).mpr h] at hne
    exact nomatch hne
  rw [lt_iff_place_lt hx hy, rank_eq, rank_eq]
  unfold place at *
  split_ifs at * <;> omega

end SurveyTables.Number

import Mathlib
import SurveyTables.Proofs.Number.Rounding

/-!
# Sums of doubles that are not negative

The amount of a double that is not negative tells how many of the smallest double make it up, where infinity
counts as the first amount that is too large. A sum has both amounts together, rounded to 53 bits, unless this
is too large. Rounding keeps the order, so the sums of doubles are in the order of exact sums.

* `unpack_packComponents`, `unpack_pack_finite`: the fields of a double, and what is packed into them;
* `amount`, `IsAmount`, `isAmount_unpack_iff`: the amount of a double that is not negative;
* `le_iff_amount_le`: the order of doubles is that of their amounts;
* **`packs_add`**: the amount of a sum;
* `nonneg_add`, **`le_add_of_nonneg`**, **`add_le_add_of_nonneg`**: the order of sums;
* **`foldl_add_le_of_sublist`**: with fewer numbers to add, a sum is not larger.
-/

namespace SurveyTables.Number

open Float.Model (Format UnpackedFloat)
open Float.Model.UnpackedFloat

/-! ## The fields of a double -/

theorem toNat_append (mantissa : BitVec 52) : (1#1 ++ mantissa).toNat = 2 ^ 52 + mantissa.toNat := by
  rw [BitVec.toNat_append, ← Nat.shiftLeft_add_eq_or_of_lt mantissa.isLt]
  simp [Nat.shiftLeft_eq]

theorem toNat_append_pos (mantissa : BitVec 52) : 0 < (1#1 ++ mantissa).toNat := by
  rw [toNat_append]
  omega

theorem toNat_pos_of_ne_zero {mantissa : BitVec 52} (h : mantissa ≠ 0#52) : 0 < mantissa.toNat :=
  Nat.pos_of_ne_zero fun h0 => h (BitVec.eq_of_toNat_eq h0)

theorem unpack_packComponents (s : Sign) (exponent : BitVec 11) (mantissa : BitVec 52) :
    unpack Format.binary64 (packComponents Format.binary64 s exponent mantissa) =
      if exponent = -1#11 then
        if mantissa = 0#52 then .infinity s else .notANumber
      else if exponent = 0#11 then
        if h : mantissa = 0#52 then .zero s
        else .finite s mantissa.toNat (-1074) (toNat_pos_of_ne_zero h)
      else .finite s (1#1 ++ mantissa).toNat (exponent.toNat - 1075) (toNat_append_pos mantissa) := by
  simp only [unpack, unpackSign_packComponents, unpackExponent_packComponents,
    unpackMantissa_packComponents, Sign.ofBitVec_toBitVec]
  split_ifs with hinfinite hzero hlow hsubnormal
  · rfl
  · rfl
  · rfl
  · simp only [hlow]
    rfl
  · rfl

theorem isCanonical_of_unpack {b : BitVec 64} {s : Sign} {m : Nat} {e : Int} {hpos : 0 < m}
    (h : unpack Format.binary64 b = .finite s m e hpos) : IsCanonical m e ∧ e ≤ 971 := by
  rw [← @packComponents_unpackSign_unpackExponent_unpackMantissa Format.binary64 b] at h
  generalize (unpackExponent b : BitVec Format.binary64.exponentBits) = exponent at h
  generalize (unpackMantissa b : BitVec Format.binary64.mantissaBitsWithoutImplicit) = mantissa at h
  rw [unpack_packComponents] at h
  have hmantissa : mantissa.toNat < 2 ^ 52 := mantissa.isLt
  have hexponent : exponent.toNat < 2 ^ 11 := exponent.isLt
  split_ifs at h with hinfinite hzero hlow hsubnormal
  · obtain ⟨-, rfl, rfl⟩ := UnpackedFloat.finite.inj h
    exact ⟨⟨le_rfl, by omega, .inl rfl⟩, by omega⟩
  · obtain ⟨-, rfl, rfl⟩ := UnpackedFloat.finite.inj h
    have hpositive : exponent.toNat ≠ 0 := fun h0 => hlow (BitVec.eq_of_toNat_eq h0)
    have hfinite : exponent.toNat ≠ 2 ^ 11 - 1 := fun h0 => hinfinite (BitVec.eq_of_toNat_eq h0)
    rw [toNat_append]
    exact ⟨⟨by omega, by omega, .inr (by omega)⟩, by omega⟩

theorem unpack_normal {m : Nat} {e : Int} (hpos : 0 < m) (h : IsCanonical m e) (hmax : e ≤ 971)
    (hfull : 2 ^ 52 ≤ m) :
    unpack Format.binary64 (packComponents Format.binary64 .positive
      (BitVec.ofNat 11 (e + 1075).toNat) (BitVec.ofNat 52 m)) = .finite .positive m e hpos := by
  have hmin := h.le_exponent
  have hlt := h.mantissa_lt
  have hmantissa : (BitVec.ofNat 52 m).toNat = m - 2 ^ 52 := by
    rw [BitVec.toNat_ofNat]
    omega
  have hexponent : (BitVec.ofNat 11 (e + 1075).toNat).toNat = (e + 1075).toNat := by
    rw [BitVec.toNat_ofNat]
    omega
  have hfinite : BitVec.ofNat 11 (e + 1075).toNat ≠ -1#11 := by
    intro h0
    rw [h0, show (-1#11).toNat = 2047 from rfl] at hexponent
    omega
  have hpositive : BitVec.ofNat 11 (e + 1075).toNat ≠ 0#11 := by
    intro h0
    rw [h0, BitVec.toNat_zero] at hexponent
    omega
  rw [unpack_packComponents, if_neg hfinite, if_neg hpositive]
  simp only [toNat_append, hexponent, hmantissa, UnpackedFloat.finite.injEq, true_and]
  omega

theorem unpack_subnormal {m : Nat} (hpos : 0 < m) (hlt : m < 2 ^ 52) :
    unpack Format.binary64 (packComponents Format.binary64 .positive 0#11 (BitVec.ofNat 52 m)) =
      .finite .positive m (-1074) hpos := by
  have hmantissa : (BitVec.ofNat 52 m).toNat = m := by
    rw [BitVec.toNat_ofNat, Nat.mod_eq_of_lt hlt]
  have hne : BitVec.ofNat 52 m ≠ 0#52 := by
    intro h0
    rw [h0, BitVec.toNat_zero] at hmantissa
    exact hpos.ne hmantissa
  rw [unpack_packComponents, if_neg (by decide), if_pos rfl, dif_neg hne]
  simp only [hmantissa]

theorem unpack_pack_finite {m : Nat} {e : Int} (hpos : 0 < m) (h : IsCanonical m e) :
    unpack Format.binary64 (pack Format.binary64 (.finite .positive m e hpos)) =
      if e ≤ 971 then .finite .positive m e hpos else .infinity .positive := by
  have hmin := h.le_exponent
  have hstored : (e + Format.binary64.exponentBias +
      (Format.binary64.mantissaBitsWithoutImplicit : Nat)).toNat = (e + 1075).toNat := by
    show (e + 1023 + 52).toNat = _
    omega
  have hbits : m.log2 + 1 = Format.binary64.mantissaBits ↔ 2 ^ 52 ≤ m := by
    have hlog := (Nat.log2_lt hpos.ne').mpr h.mantissa_lt
    rw [← Nat.le_log2 hpos.ne', show Format.binary64.mantissaBits = 53 from rfl]
    omega
  simp only [pack, hstored, hbits]
  by_cases hmax : e ≤ 971
  · rw [if_pos hmax, if_neg (by omega)]
    split_ifs with hfull
    · exact unpack_normal hpos h hmax hfull
    · obtain rfl : e = -1074 := h.full.resolve_right hfull
      exact unpack_subnormal hpos (Nat.lt_of_not_le hfull)
  · rw [if_neg hmax, if_pos (by omega)]
    exact unpack_packComponents .positive (-1#11) 0#52

/-! ## Amounts -/

/-- The first amount that is too large for a finite double. -/
def tooLarge : Nat :=
  2 ^ 52 * 2 ^ 2046

/-- How many of the smallest double make up a double, whatever its sign. -/
def amount : UnpackedFloat → Nat
  | .infinity _ => tooLarge
  | .finite _ m e _ => m * 2 ^ (e + 1074).toNat
  | .zero _ => 0
  | .notANumber => 0

/-- A double that is not negative, taken apart. -/
inductive IsAmount : UnpackedFloat → Prop where
  | zero (s : Sign) : IsAmount (.zero s)
  | finite {m : Nat} {e : Int} (hpos : 0 < m) (h : IsCanonical m e) (hmax : e ≤ 971) :
      IsAmount (.finite .positive m e hpos)
  | infinity : IsAmount (.infinity .positive)

theorem le_iff_unpack_le (x y : Float) : x ≤ y ↔ x.toModel.unpack.le y.toModel.unpack = true :=
  decide_eq_true_iff

theorem zero_le_iff (x : Float) : 0 ≤ x ↔ (UnpackedFloat.zero .positive).le x.toModel.unpack = true :=
  le_iff_unpack_le 0 x

theorem lt_zero_iff (x : Float) : x < 0 ↔ x.toModel.unpack.lt (.zero .positive) = true :=
  decide_eq_true_iff

theorem isAmount_unpack_iff (x : Float) : IsAmount x.toModel.unpack ↔ 0 ≤ x := by
  rw [zero_le_iff]
  cases hx : x.toModel.unpack with
  | infinity s =>
    cases s with
    | positive => exact iff_of_true .infinity rfl
    | negative => exact iff_of_false nofun Bool.false_ne_true
  | notANumber => exact iff_of_false nofun Bool.false_ne_true
  | zero s => exact iff_of_true (.zero s) rfl
  | finite s m e hpos =>
    obtain ⟨hcanonical, hle⟩ := isCanonical_of_unpack hx
    cases s with
    | positive => exact iff_of_true (.finite hpos hcanonical hle) rfl
    | negative => exact iff_of_false nofun Bool.false_ne_true

theorem nonneg_or_neg (u : UnpackedFloat) :
    (UnpackedFloat.zero .positive).le u = true ∨ u.lt (.zero .positive) = true ∨ u = .notANumber := by
  cases u with
  | notANumber => exact .inr (.inr rfl)
  | zero s => exact .inl rfl
  | infinity s => cases s; exacts [.inr (.inl rfl), .inl rfl]
  | finite s m e hpos => cases s; exacts [.inr (.inl rfl), .inl rfl]

theorem nonneg_of_not_lt {x : Float} (hnan : x ≠ Float.nan) (h : ¬ x < 0) : 0 ≤ x := by
  rcases nonneg_or_neg x.toModel.unpack with hle | hlt | hx
  · exact (zero_le_iff x).mpr hle
  · exact absurd ((lt_zero_iff x).mpr hlt) h
  · have hisNaN : x.isNaN = true := isNaN_iff.mpr hx
    rw [Float.isNaN_eq_decide_eq_nan] at hisNaN
    exact absurd (decide_eq_true_iff.mp hisNaN) hnan

/-! ## The order of doubles -/

theorem mul_lt_mul_of_exponent_lt {m m' : Nat} {e e' : Int} (h : IsCanonical m e)
    (h' : IsCanonical m' e') (hlt : e < e') :
    m * 2 ^ (e + 1074).toNat < m' * 2 ^ (e' + 1074).toNat := by
  have hmin := h.le_exponent
  have hfull : 2 ^ 52 ≤ m' := h'.full.resolve_left (by omega)
  calc m * 2 ^ (e + 1074).toNat < 2 ^ 53 * 2 ^ (e + 1074).toNat :=
        Nat.mul_lt_mul_of_pos_right h.mantissa_lt (Nat.two_pow_pos _)
    _ = 2 ^ (53 + (e + 1074).toNat) := (Nat.pow_add ..).symm
    _ ≤ 2 ^ (52 + (e' + 1074).toNat) := Nat.pow_le_pow_right (by decide) (by omega)
    _ = 2 ^ 52 * 2 ^ (e' + 1074).toNat := Nat.pow_add ..
    _ ≤ m' * 2 ^ (e' + 1074).toNat := Nat.mul_le_mul_right _ hfull

theorem isCanonical_tooLarge : IsCanonical (2 ^ 52) 972 :=
  ⟨by decide, by decide, .inr le_rfl⟩

theorem tooLarge_eq : tooLarge = 2 ^ 52 * 2 ^ ((972 : Int) + 1074).toNat := by
  rw [tooLarge, show ((972 : Int) + 1074).toNat = 2046 from rfl]

theorem tooLarge_pos : 0 < tooLarge := by
  rw [tooLarge_eq]
  positivity

theorem lt_tooLarge {m : Nat} {e : Int} (h : IsCanonical m e) (hmax : e ≤ 971) :
    m * 2 ^ (e + 1074).toNat < tooLarge := by
  rw [tooLarge_eq]
  exact mul_lt_mul_of_exponent_lt h isCanonical_tooLarge (by omega)

theorem tooLarge_le {m : Nat} {e : Int} (h : IsCanonical m e) (hmax : 971 < e) :
    tooLarge ≤ m * 2 ^ (e + 1074).toNat := by
  have hfull : 2 ^ 52 ≤ m := h.full.resolve_left (by omega)
  rw [tooLarge_eq]
  exact Nat.mul_le_mul hfull (Nat.pow_le_pow_right (by decide) (by omega))

theorem amount_le_tooLarge {u : UnpackedFloat} (hu : IsAmount u) : amount u ≤ tooLarge := by
  cases hu with
  | zero s => exact Nat.zero_le _
  | finite hpos h hmax => exact (lt_tooLarge h hmax).le
  | infinity => exact le_rfl

/-- **The order of doubles is that of their amounts.** -/
theorem le_iff_amount_le {u v : UnpackedFloat} (hu : IsAmount u) (hv : IsAmount v) :
    u.le v = true ↔ amount u ≤ amount v := by
  cases hv with
  | infinity =>
    refine iff_of_true ?_ (amount_le_tooLarge hu)
    cases hu <;> rfl
  | zero s =>
    cases hu with
    | zero s' => exact iff_of_true rfl le_rfl
    | finite hpos h hmax =>
      exact iff_of_false Bool.false_ne_true (Nat.not_le.mpr (Nat.mul_pos hpos (Nat.two_pow_pos _)))
    | infinity => exact iff_of_false Bool.false_ne_true (Nat.not_le.mpr tooLarge_pos)
  | @finite m' e' hpos' h' hmax' =>
    cases hu with
    | zero s => exact iff_of_true rfl (Nat.zero_le _)
    | infinity => exact iff_of_false Bool.false_ne_true (Nat.not_le.mpr (lt_tooLarge h' hmax'))
    | @finite m e hpos h hmax =>
      have hle : (UnpackedFloat.finite .positive m e hpos).le (.finite .positive m' e' hpos') =
        ((compare e e').then (compare m m')).isLE := rfl
      rw [hle, amount, amount]
      rcases lt_trichotomy e e' with hlt | rfl | hgt
      · rw [compare_lt_iff_lt.mpr hlt]
        exact iff_of_true rfl (mul_lt_mul_of_exponent_lt h h' hlt).le
      · rw [compare_eq_iff_eq.mpr rfl, Nat.mul_le_mul_right_iff (Nat.two_pow_pos _)]
        exact Nat.isLE_compare
      · rw [compare_gt_iff_gt.mpr hgt]
        exact iff_of_false Bool.false_ne_true (Nat.not_le.mpr (mul_lt_mul_of_exponent_lt h' h hgt))

/-! ## Sums -/

/-- A result that is packed into a double of this amount, or of infinity if this is too large. -/
structure Packs (u : UnpackedFloat) (n : Nat) : Prop where
  isAmount : IsAmount (unpack Format.binary64 (pack Format.binary64 u))
  amount_eq : amount (unpack Format.binary64 (pack Format.binary64 u)) = min n tooLarge

theorem packs_zero (s : Sign) : Packs (.zero s) 0 := by
  have h : unpack Format.binary64 (pack Format.binary64 (.zero s)) = .zero s := unpack_packedZero
  constructor <;> rw [h]
  · exact .zero s
  · exact (Nat.zero_min _).symm

theorem packs_infinity {n : Nat} (hn : tooLarge ≤ n) : Packs (.infinity .positive) n := by
  have h : unpack Format.binary64 (pack Format.binary64 (.infinity .positive)) = .infinity .positive :=
    unpack_packComponents .positive (-1#11) 0#52
  constructor <;> rw [h]
  · exact .infinity
  · exact (Nat.min_eq_right hn).symm

theorem packs_finite {m : Nat} {e : Int} (hpos : 0 < m) (h : IsCanonical m e) :
    Packs (.finite .positive m e hpos) (m * 2 ^ (e + 1074).toNat) := by
  constructor <;> rw [unpack_pack_finite hpos h] <;> split_ifs with hmax
  · exact .finite hpos h hmax
  · exact .infinity
  · exact (Nat.min_eq_left (lt_tooLarge h hmax).le).symm
  · exact (Nat.min_eq_right (tooLarge_le h (by omega))).symm

theorem rounded_tooLarge : rounded tooLarge = tooLarge :=
  rounded_eq_self (by decide) (.inr le_rfl)

theorem rounded_finite {m : Nat} {e : Int} (h : IsCanonical m e) :
    rounded (m * 2 ^ (e + 1074).toNat) = m * 2 ^ (e + 1074).toNat := by
  refine rounded_eq_self h.mantissa_lt (h.full.imp_left ?_)
  rintro rfl
  rfl

theorem rounded_amount {u : UnpackedFloat} (hu : IsAmount u) : rounded (amount u) = amount u := by
  cases hu with
  | zero s => exact rounded_eq_self (show 0 < 2 ^ 53 by decide) (.inl rfl)
  | finite hpos h hmax => exact rounded_finite h
  | infinity => exact rounded_tooLarge

/-- Both numbers of a sum are brought to the smaller exponent. -/
theorem add_finite {m m' : Nat} {e e' : Int} (hpos : 0 < m) (hpos' : 0 < m') :
    add Format.binary64 (.finite .positive m e hpos) (.finite .positive m' e' hpos') =
      UnpackedFloat.round Format.binary64 .positive
        (m * 2 ^ (e - min e e').toNat + m' * 2 ^ (e' - min e e').toNat) (min e e') := by
  have hsum : (0 : Int) < (m * 2 ^ (e - min e e').toNat + m' * 2 ^ (e' - min e e').toNat : Nat) := by
    exact_mod_cast Nat.add_pos_left (Nat.mul_pos hpos (Nat.two_pow_pos _)) _
  simp only [add, decreaseExponent, Nat.shiftLeft_eq, Sign.apply]
  rw [← Int.natCast_add, UnpackedFloat.normalize, compare_gt_iff_gt.mpr hsum, Int.toNat_natCast]

theorem shifted_mul {m : Nat} {e d : Int} (hd : -1074 ≤ d) (hle : d ≤ e) :
    m * 2 ^ (e - d).toNat * 2 ^ (d + 1074).toNat = m * 2 ^ (e + 1074).toNat := by
  rw [Nat.mul_assoc, ← Nat.pow_add]
  congr 2
  omega

theorem packs_add_finite {m m' : Nat} {e e' : Int} (hpos : 0 < m) (hpos' : 0 < m')
    (h : IsCanonical m e) (h' : IsCanonical m' e') :
    Packs (add Format.binary64 (.finite .positive m e hpos) (.finite .positive m' e' hpos'))
      (rounded (m * 2 ^ (e + 1074).toNat + m' * 2 ^ (e' + 1074).toNat)) := by
  have hmin := h.le_exponent
  have hmin' := h'.le_exponent
  obtain ⟨d, hd⟩ : ∃ d, d = min e e' := ⟨_, rfl⟩
  obtain ⟨n, hn⟩ : ∃ n, n = m * 2 ^ (e - d).toNat + m' * 2 ^ (e' - d).toNat := ⟨_, rfl⟩
  have hn0 : n ≠ 0 := by
    rw [hn]
    exact (Nat.add_pos_left (Nat.mul_pos hpos (Nat.two_pow_pos _)) _).ne'
  have hamount : n * 2 ^ (d + 1074).toNat = m * 2 ^ (e + 1074).toNat + m' * 2 ^ (e' + 1074).toNat := by
    rw [hn, Nat.add_mul, shifted_mul (by omega) (by omega), shifted_mul (by omega) (by omega)]
  obtain ⟨k, e'', hk, hround, hcanonical, hvalue⟩ := round_eq hn0 (d + 1074).toNat
  rw [add_finite, ← hd, ← hn, ← hamount, ← hvalue,
    show d = ((d + 1074).toNat : Int) - 1074 by omega, hround]
  exact packs_finite hk hcanonical

/-- **The amount of a sum** is the sum of the amounts, rounded. -/
theorem packs_add {u v : UnpackedFloat} (hu : IsAmount u) (hv : IsAmount v) :
    Packs (add Format.binary64 u v) (rounded (amount u + amount v)) := by
  have hinfinite (hle : tooLarge ≤ amount u + amount v) :
      Packs (.infinity .positive) (rounded (amount u + amount v)) :=
    packs_infinity (rounded_tooLarge ▸ rounded_mono hle)
  cases hu with
  | infinity =>
    have h := hinfinite (Nat.le_add_right _ _)
    cases hv <;> exact h
  | zero s =>
    cases hv with
    | infinity => exact hinfinite (Nat.le_add_left _ _)
    | zero s' => cases s <;> cases s' <;> exact packs_zero _
    | finite hpos h hmax =>
      rw [amount, amount, Nat.zero_add, rounded_finite h]
      exact packs_finite hpos h
  | finite hpos h hmax =>
    cases hv with
    | infinity => exact hinfinite (Nat.le_add_left _ _)
    | zero s =>
      rw [amount, amount, Nat.add_zero, rounded_finite h]
      exact packs_finite hpos h
    | finite hpos' h' hmax' => exact packs_add_finite hpos hpos' h h'

/-! ## The order of sums -/

theorem unpack_add (x y : Float) : (x + y).toModel.unpack =
    unpack Format.binary64 (pack Format.binary64 (add Format.binary64 x.toModel.unpack y.toModel.unpack)) :=
  rfl

theorem le_iff {x y : Float} (hx : 0 ≤ x) (hy : 0 ≤ y) :
    x ≤ y ↔ amount x.toModel.unpack ≤ amount y.toModel.unpack := by
  rw [le_iff_unpack_le, le_iff_amount_le ((isAmount_unpack_iff x).mpr hx) ((isAmount_unpack_iff y).mpr hy)]

section Nonneg

variable {x y w : Float} (hx : 0 ≤ x) (hy : 0 ≤ y)
include hx hy

theorem packs_unpack_add : Packs (add Format.binary64 x.toModel.unpack y.toModel.unpack)
    (rounded (amount x.toModel.unpack + amount y.toModel.unpack)) :=
  packs_add ((isAmount_unpack_iff x).mpr hx) ((isAmount_unpack_iff y).mpr hy)

theorem nonneg_add : 0 ≤ x + y := by
  rw [← isAmount_unpack_iff, unpack_add]
  exact (packs_unpack_add hx hy).isAmount

theorem amount_unpack_add : amount (x + y).toModel.unpack =
    min (rounded (amount x.toModel.unpack + amount y.toModel.unpack)) tooLarge := by
  rw [unpack_add]
  exact (packs_unpack_add hx hy).amount_eq

/-- **A sum is not less than one of its numbers.** -/
theorem le_add_of_nonneg : x ≤ x + y := by
  rw [le_iff hx (nonneg_add hx hy), amount_unpack_add hx hy, le_min_iff]
  have hamount := (isAmount_unpack_iff x).mpr hx
  refine ⟨?_, amount_le_tooLarge hamount⟩
  calc amount x.toModel.unpack = rounded (amount x.toModel.unpack) := (rounded_amount hamount).symm
    _ ≤ rounded (amount x.toModel.unpack + amount y.toModel.unpack) := rounded_mono (Nat.le_add_right _ _)

/-- **A number added on both sides keeps the order.** -/
theorem add_le_add_of_nonneg (hw : 0 ≤ w) (hxy : x ≤ y) : x + w ≤ y + w := by
  rw [le_iff (nonneg_add hx hw) (nonneg_add hy hw), amount_unpack_add hx hw, amount_unpack_add hy hw]
  exact min_le_min_right _ (rounded_mono (Nat.add_le_add_right ((le_iff hx hy).mp hxy) _))

end Nonneg

/-- **With fewer numbers to add, a sum is not larger.** -/
theorem foldl_add_le_of_sublist {ws vs : List Float} (h : ws.Sublist vs) (hvs : ∀ v ∈ vs, 0 ≤ v)
    {x y : Float} (hx : 0 ≤ x) (hy : 0 ≤ y) (hxy : x ≤ y) :
    ws.foldl (· + ·) x ≤ vs.foldl (· + ·) y := by
  induction h generalizing x y with
  | slnil => exact hxy
  | @cons ws vs v h ih =>
    have hv := hvs v List.mem_cons_self
    have hle := le_add_of_nonneg hy hv
    have hsum := nonneg_add hy hv
    refine ih (fun u hu => hvs u (List.mem_cons_of_mem v hu)) hx hsum ?_
    rw [le_iff hx hsum]
    exact ((le_iff hx hy).mp hxy).trans ((le_iff hy hsum).mp hle)
  | @cons_cons ws vs v h ih =>
    have hv := hvs v List.mem_cons_self
    exact ih (fun u hu => hvs u (List.mem_cons_of_mem v hu)) (nonneg_add hx hv) (nonneg_add hy hv)
      (add_le_add_of_nonneg hx hy hv hxy)

end SurveyTables.Number

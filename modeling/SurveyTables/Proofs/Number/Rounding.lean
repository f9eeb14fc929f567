import Mathlib

/-!
# Rounding to 53 bits

A sum of two doubles is worked out exactly and then rounded to 53 bits: to the nearest number that has so
many, and of two that are equally near to the one whose last bit is 0. Here numbers are counted in units of
the smallest double.

* `halfEven`, `halfEven_mono`: division by a power of two, rounded to the nearest or else even number;
* `rounded`, **`rounded_mono`**, `rounded_eq_self`: a number with its bits behind the 53rd rounded away;
* `IsCanonical`: the mantissas and exponents of finite doubles;
* `roundedMantissa_shiftRight`, **`round_eq`**: the rounding of doubles is this one.
-/

namespace SurveyTables.Number

/-! ## Halves to even -/

/-- The number divided by `2 ^ k`, rounded to the nearest number, and halves to the even one. -/
def halfEven (k n : Nat) : Nat :=
  let quotient := n / 2 ^ k
  let rest := 2 * (n % 2 ^ k)
  if rest < 2 ^ k then quotient
  else if rest = 2 ^ k then quotient + quotient % 2
  else quotient + 1

theorem div_le_halfEven (k n : Nat) : n / 2 ^ k ≤ halfEven k n := by
  unfold halfEven
  dsimp only
  split_ifs <;> omega

theorem halfEven_le_succ (k n : Nat) : halfEven k n ≤ n / 2 ^ k + 1 := by
  unfold halfEven
  dsimp only
  split_ifs <;> omega

theorem halfEven_mono (k : Nat) {n n' : Nat} (h : n ≤ n') : halfEven k n ≤ halfEven k n' := by
  rcases (Nat.div_le_div_right h : n / 2 ^ k ≤ n' / 2 ^ k).lt_or_eq with hlt | heq
  · calc halfEven k n ≤ n / 2 ^ k + 1 := halfEven_le_succ k n
      _ ≤ n' / 2 ^ k := hlt
      _ ≤ halfEven k n' := div_le_halfEven k n'
  · -- with the same quotient the rests are in order
    have hn := Nat.div_add_mod n (2 ^ k)
    have hn' := Nat.div_add_mod n' (2 ^ k)
    rw [← heq] at hn'
    unfold halfEven
    rw [← heq]
    dsimp only
    split_ifs <;> omega

theorem halfEven_mul (k n : Nat) : halfEven k (n * 2 ^ k) = n := by
  have hpos : 0 < 2 ^ k := Nat.two_pow_pos k
  rw [halfEven, Nat.mul_mod_left, Nat.mul_div_cancel n hpos]
  simp

/-! ## Numbers of 53 bits -/

/-- How many bits a number has behind its first 53. -/
def extraBits (n : Nat) : Nat :=
  n.log2 - 52

/-- The number rounded to 53 bits. -/
def rounded (n : Nat) : Nat :=
  halfEven (extraBits n) n * 2 ^ extraBits n

theorem log2_mono {n n' : Nat} (h : n ≤ n') : n.log2 ≤ n'.log2 := by
  rw [Nat.log2_eq_log_two, Nat.log2_eq_log_two]
  exact Nat.log_mono_right h

theorem lt_two_pow_extraBits (n : Nat) : n < 2 ^ (53 + extraBits n) := by
  calc n < 2 ^ (n.log2 + 1) := Nat.lt_log2_self
    _ ≤ 2 ^ (53 + extraBits n) := Nat.pow_le_pow_right (by decide) (by unfold extraBits; omega)

theorem le_halfEven_extraBits {n : Nat} (h : 0 < extraBits n) :
    2 ^ 52 ≤ halfEven (extraBits n) n := by
  have hn : n ≠ 0 := by
    rintro rfl
    exact absurd h (by decide)
  have hle : 2 ^ (52 + extraBits n) ≤ n := by
    rw [show 52 + extraBits n = n.log2 by unfold extraBits at *; omega]
    exact Nat.log2_self_le hn
  refine le_trans ?_ (div_le_halfEven _ n)
  rwa [Nat.le_div_iff_mul_le (Nat.two_pow_pos _), ← Nat.pow_add]

theorem halfEven_extraBits_ne_zero {n : Nat} (hn : n ≠ 0) : halfEven (extraBits n) n ≠ 0 := by
  rcases Nat.eq_zero_or_pos (extraBits n) with h | h
  · have hle := div_le_halfEven 0 n
    rw [Nat.pow_zero, Nat.div_one] at hle
    rw [h]
    omega
  · have hle := le_halfEven_extraBits h
    omega

theorem halfEven_extraBits_le (n : Nat) : halfEven (extraBits n) n ≤ 2 ^ 53 := by
  calc halfEven (extraBits n) n ≤ halfEven (extraBits n) (2 ^ 53 * 2 ^ extraBits n) := by
        rw [← Nat.pow_add]
        exact halfEven_mono _ (lt_two_pow_extraBits n).le
    _ = 2 ^ 53 := halfEven_mul _ _

/-- **Rounding keeps the order.** -/
theorem rounded_mono {n n' : Nat} (h : n ≤ n') : rounded n ≤ rounded n' := by
  have hbits : extraBits n ≤ extraBits n' := Nat.sub_le_sub_right (log2_mono h) 52
  rcases hbits.lt_or_eq with hlt | heq
  · -- a number with more bits is rounded to one that has more bits
    calc rounded n ≤ 2 ^ 53 * 2 ^ extraBits n := Nat.mul_le_mul_right _ (halfEven_extraBits_le n)
      _ ≤ 2 ^ 52 * 2 ^ extraBits n' := by
        rw [← Nat.pow_add, ← Nat.pow_add]
        exact Nat.pow_le_pow_right (by decide) (by omega)
      _ ≤ rounded n' := Nat.mul_le_mul_right _ (le_halfEven_extraBits (by omega))
  · rw [rounded, rounded, heq]
    exact Nat.mul_le_mul_right _ (halfEven_mono _ h)

theorem log2_mul_two_pow {m : Nat} (hm : m ≠ 0) (k : Nat) : (m * 2 ^ k).log2 = m.log2 + k := by
  rw [Nat.log2_eq_iff (by positivity), Nat.pow_add, show m.log2 + k + 1 = m.log2 + 1 + k by omega,
    Nat.pow_add]
  exact ⟨Nat.mul_le_mul_right _ (Nat.log2_self_le hm),
    Nat.mul_lt_mul_of_pos_right Nat.lt_log2_self (Nat.two_pow_pos k)⟩

theorem rounded_eq_self {m k : Nat} (hm : m < 2 ^ 53) (hfull : k = 0 ∨ 2 ^ 52 ≤ m) :
    rounded (m * 2 ^ k) = m * 2 ^ k := by
  have hbits : extraBits (m * 2 ^ k) = k := by
    by_cases h0 : m = 0
    · subst h0
      rw [Nat.zero_mul]
      rcases hfull with rfl | hfull
      · rfl
      · exact absurd hfull (by decide)
    · have hlt := (Nat.log2_lt h0).mpr hm
      rw [extraBits, log2_mul_two_pow h0]
      rcases hfull with rfl | hfull
      · omega
      · have hle := (Nat.le_log2 h0).mpr hfull
        omega
  rw [rounded, hbits, halfEven_mul]

/-! ## The rounding of doubles -/

open Float.Model Float.Model.UnpackedFloat

/-- The bits that are shifted out of a mantissa: the last of them, and whether another was 1. -/
theorem shiftRight_succ (n k : Nat) : (⟨n, false, false⟩ : ExtendedMantissa) >>> (k + 1) =
    ⟨n / 2 ^ (k + 1), n / 2 ^ k % 2 != 0, n % 2 ^ k != 0⟩ := by
  induction k with
  | zero => simp [HShiftRight.hShiftRight, Nat.repeat, ExtendedMantissa.shiftRightOne, Nat.mod_one]
  | succ k ih =>
    show ((⟨n, false, false⟩ : ExtendedMantissa) >>> (k + 1)).shiftRightOne = _
    have hsticky : (n / 2 ^ k % 2 != 0 || n % 2 ^ k != 0) = (n % 2 ^ (k + 1) != 0) := by
      have hpos := Nat.two_pow_pos k
      rw [Bool.eq_iff_iff, Nat.mod_pow_succ]
      rcases Nat.mod_two_eq_zero_or_one (n / 2 ^ k) with h | h <;> simp [h]
    rw [ih, ExtendedMantissa.shiftRightOne, hsticky, Nat.div_div_eq_div_mul, ← Nat.pow_succ]

theorem roundedMantissa_shiftRight (n k : Nat) :
    ((⟨n, false, false⟩ : ExtendedMantissa) >>> k).roundedMantissa = halfEven k n := by
  cases k with
  | zero =>
    have h := halfEven_mul 0 n
    rw [Nat.pow_zero, Nat.mul_one] at h
    rw [h]
    rfl
  | succ k =>
    have hlt := Nat.mod_lt n (Nat.two_pow_pos k)
    unfold halfEven
    dsimp only
    rw [shiftRight_succ, Nat.mod_pow_succ, Nat.pow_succ 2 k]
    rcases Nat.mod_two_eq_zero_or_one (n / 2 ^ k) with h | h
    · -- the part that is cut off is less than a half
      rw [h, if_pos (by omega)]
      cases n % 2 ^ k != 0 <;> rfl
    · rw [h, if_neg (by omega)]
      by_cases hrest : n % 2 ^ k = 0
      · rw [hrest, if_pos (by omega)]
        rfl
      · rw [if_neg (by omega), bne_iff_ne.mpr hrest]
        rfl

theorem halfEven_add_mul (k j n : Nat) : halfEven (k + j) (n * 2 ^ j) = halfEven k n := by
  have hpos := Nat.two_pow_pos j
  unfold halfEven
  dsimp only
  rw [Nat.pow_add, Nat.mul_div_mul_right _ _ hpos, Nat.mul_mod_mul_right, ← Nat.mul_assoc]
  simp only [Nat.mul_lt_mul_right hpos, Nat.mul_left_inj hpos.ne']

/-- The mantissas and exponents of the finite doubles, and of larger numbers: the mantissa has 53 bits, or
less if the exponent is the lowest. -/
structure IsCanonical (mantissa : Nat) (exponent : Int) : Prop where
  le_exponent : -1074 ≤ exponent
  mantissa_lt : mantissa < 2 ^ 53
  full : exponent = -1074 ∨ 2 ^ 52 ≤ mantissa

theorem targetExponent_eq {m : Nat} (hm : m ≠ 0) (j : Nat) :
    Format.binary64.targetExponent (totalExponent m (j - 1074)) =
      (extraBits (m * 2 ^ j) : Int) - 1074 := by
  rw [extraBits, log2_mul_two_pow hm]
  show max ((m.log2 : Int) + 1 + (j - 1074) - 53) (-1074) = _
  omega

theorem shiftToTargetExponent_eq {m : Nat} (h0 : m ≠ 0) (hm : m ≤ 2 ^ 53) {j : Nat}
    (hfull : j = 0 ∨ 2 ^ 52 ≤ m) : ∃ m' : Nat, ∃ e : Int,
    shiftToTargetExponent Format.binary64 m (j - 1074) .exact = (⟨m', false, false⟩, e) ∧
      m' ≠ 0 ∧ IsCanonical m' e ∧ m' * 2 ^ (e + 1074).toNat = m * 2 ^ j := by
  rw [shiftToTargetExponent, targetExponent_eq h0, extraBits, log2_mul_two_pow h0, shiftToExponent]
  rcases hm.lt_or_eq with hlt | rfl
  · have hlog := (Nat.log2_lt h0).mpr hlt
    rw [show (((m.log2 + j - 52 : Nat) : Int) - 1074 - (j - 1074)).toNat = 0 by omega]
    refine ⟨m, j - 1074, by rw [Int.natCast_zero, Int.add_zero]; rfl, h0, ⟨by omega, hlt, ?_⟩, ?_⟩
    · omega
    · rw [show ((j : Int) - 1074 + 1074).toNat = j by omega]
  · rw [Nat.log2_two_pow, show (((53 + j - 52 : Nat) : Int) - 1074 - (j - 1074)).toNat = 1 by omega]
    refine ⟨2 ^ 52, j - 1074 + 1, rfl, by decide, ⟨by omega, by decide, .inr le_rfl⟩, ?_⟩
    rw [show ((j : Int) - 1074 + 1 + 1074).toNat = j + 1 by omega, ← Nat.pow_add, ← Nat.pow_add]
    congr 1
    omega

theorem roundWithAccuracy_eq {m j : Nat} (h0 : m ≠ 0) (hj : j ≤ extraBits (m * 2 ^ j)) :
    ∃ m' : Nat, ∃ e : Int, ∃ hpos : 0 < m',
      roundWithAccuracy Format.binary64 .positive m (j - 1074) .exact = .finite .positive m' e hpos ∧
        IsCanonical m' e ∧ m' * 2 ^ (e + 1074).toNat = rounded (m * 2 ^ j) := by
  obtain ⟨n, hn⟩ : ∃ n, n = m * 2 ^ j := ⟨_, rfl⟩
  have hn0 : n ≠ 0 := by rw [hn]; positivity
  have hfirst : shiftToTargetExponent Format.binary64 m (j - 1074) .exact =
      ((⟨m, false, false⟩ : ExtendedMantissa) >>> (extraBits n - j), (extraBits n : Int) - 1074) := by
    rw [← hn] at hj
    rw [shiftToTargetExponent, targetExponent_eq h0, shiftToExponent, ← hn,
      show ((extraBits n : Int) - 1074 - (j - 1074)).toNat = extraBits n - j by omega,
      show (j : Int) - 1074 + (extraBits n - j : Nat) = extraBits n - 1074 by omega]
    rfl
  have hmantissa : ((⟨m, false, false⟩ : ExtendedMantissa) >>> (extraBits n - j)).roundedMantissa =
      halfEven (extraBits n) n := by
    rw [roundedMantissa_shiftRight, ← halfEven_add_mul _ j, ← hn, Nat.sub_add_cancel (hn ▸ hj)]
  have hfull : extraBits n = 0 ∨ 2 ^ 52 ≤ halfEven (extraBits n) n :=
    (Nat.eq_zero_or_pos _).imp_right le_halfEven_extraBits
  have hne := halfEven_extraBits_ne_zero hn0
  obtain ⟨m', e, hsecond, hm', hcanonical, hvalue⟩ :=
    shiftToTargetExponent_eq hne (halfEven_extraBits_le n) hfull
  refine ⟨m', e, Nat.pos_of_ne_zero hm', ?_, hcanonical, ?_⟩
  · unfold roundWithAccuracy
    simp only [hfirst, hmantissa, hsecond, hm']
    rfl
  · rw [hvalue, ← hn, rounded]

/-- **Doubles are rounded to 53 bits.** -/
theorem round_eq {m : Nat} (h0 : m ≠ 0) (j : Nat) : ∃ m' : Nat, ∃ e : Int, ∃ hpos : 0 < m',
    UnpackedFloat.round Format.binary64 .positive m (j - 1074) = .finite .positive m' e hpos ∧
      IsCanonical m' e ∧ m' * 2 ^ (e + 1074).toNat = rounded (m * 2 ^ j) := by
  obtain ⟨i, hi⟩ : ∃ i, i = j - extraBits (m * 2 ^ j) := ⟨_, rfl⟩
  have hvalue : m * 2 ^ i * 2 ^ (j - i) = m * 2 ^ j := by
    rw [Nat.mul_assoc, ← Nat.pow_add, Nat.add_sub_cancel' (by omega)]
  -- bits are appended as far as there is room for them
  have hdecrease : decreaseExponent m (j - 1074) (extraBits (m * 2 ^ j) - 1074) =
      (m * 2 ^ i, ((j - i : Nat) : Int) - 1074) := by
    have hshift : ((j : Int) - 1074 - (extraBits (m * 2 ^ j) - 1074)).toNat = i := by omega
    unfold decreaseExponent
    simp only [hshift, Nat.shiftLeft_eq, Prod.mk.injEq, true_and]
    omega
  unfold UnpackedFloat.round
  simp only [targetExponent_eq h0, hdecrease]
  rw [← hvalue]
  apply roundWithAccuracy_eq (by positivity)
  rw [hvalue]
  omega

end SurveyTables.Number

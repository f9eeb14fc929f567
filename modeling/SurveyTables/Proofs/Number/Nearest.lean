import SurveyTables.Proofs.Number.Order
import SurveyTables.Proofs.Number.Shortest

/-!
# The nearest double

A number is read as the double nearest to it, and where two are equally near as the one whose last bit is
0. What rounds to a magnitude is read as the double with this magnitude.

* `value`: the number that a double is, where infinity counts as the first power of two that is too large;
* `amountAt`, `valueAt`, `value_eq`: the values step by step;
* `IsNearest`;
* `Rounds.le_midpoint`, `Rounds.midpoint_le`: what rounds to a magnitude lies between the midpoints around it;
* **`isNearest_of_rounds`**, **`IsNearest.eq`**: a number is read as one double of each sign.
-/

namespace SurveyTables.Number

variable {x y : Float} {v q : ℚ} {mantissa scale : Nat}

/-! ## Values -/

/-- The number that a magnitude is. Infinity counts as the first power of two that is too large. -/
def Magnitude.value : Magnitude → ℚ
  | .nan => 0
  | .infinite => 2 ^ 1024
  | .finite mantissa scale => mantissa * 2 ^ ((scale : ℤ) - 1075)

/-- The number with a minus in front of it, or without. -/
def signed (negative : Bool) (v : ℚ) : ℚ :=
  if negative then -v else v

/-- The number that a double is. -/
def value (x : Float) : ℚ :=
  signed (isNegative x) (magnitude x).value

/-- How many of the smallest double make up the double that is so many steps from zero. -/
def amountAt (n : Nat) : Nat :=
  if n < leadingBit then n else (leadingBit + n % leadingBit) * 2 ^ (n / leadingBit - 1)

theorem amountAt_succ (n : Nat) : amountAt (n + 1) = amountAt n + 2 ^ (n / leadingBit - 1) := by
  have hdiv := Nat.div_add_mod n leadingBit
  have hmod := Nat.mod_lt n (show leadingBit > 0 by decide)
  have hsucc : (n + 1) / leadingBit =
      if n % leadingBit + 1 = leadingBit then n / leadingBit + 1 else n / leadingBit := by
    unfold leadingBit at *
    split <;> omega
  have hrest : (n + 1) % leadingBit =
      if n % leadingBit + 1 = leadingBit then 0 else n % leadingBit + 1 := by
    unfold leadingBit at *
    split <;> omega
  unfold amountAt
  rw [hsucc, hrest]
  by_cases hlow : n < leadingBit
  · rw [if_pos hlow, Nat.div_eq_of_lt hlow, Nat.mod_eq_of_lt hlow]
    split_ifs <;> first | rfl | omega
  · have hle : 1 ≤ n / leadingBit := (Nat.one_le_div_iff (by decide)).mpr (Nat.le_of_not_lt hlow)
    rw [if_neg hlow, if_neg (by omega)]
    split_ifs with hlast
    · -- the units are twice as large behind a power of two
      obtain ⟨k, hk⟩ : ∃ k, n / leadingBit = k + 1 := ⟨n / leadingBit - 1, by omega⟩
      rw [hk, Nat.add_sub_cancel, Nat.add_sub_cancel, Nat.pow_succ]
      calc (leadingBit + 0) * (2 ^ k * 2) = (leadingBit + leadingBit) * 2 ^ k := by ring
        _ = (leadingBit + (n % leadingBit + 1)) * 2 ^ k := by rw [hlast]
        _ = (leadingBit + n % leadingBit) * 2 ^ k + 2 ^ k := by ring
    · ring

theorem amountAt_strictMono : StrictMono amountAt :=
  strictMono_nat_of_lt_succ fun n => by
    rw [amountAt_succ]
    exact Nat.lt_add_of_pos_right (Nat.two_pow_pos _)

theorem amountAt_of_isMagnitude (h : IsMagnitude mantissa scale) :
    amountAt ((scale - 1) * leadingBit + mantissa) = mantissa * 2 ^ (scale - 1) ∧
      ((scale - 1) * leadingBit + mantissa) / leadingBit - 1 = scale - 1 := by
  obtain ⟨hpos, -, hlt, hfull⟩ := h
  by_cases hlow : mantissa < leadingBit
  · obtain rfl : scale = 1 := by
      by_contra hne
      exact absurd hlow (Nat.not_lt.mpr (hfull (by omega)))
    rw [Nat.sub_self, Nat.zero_mul, Nat.zero_add, amountAt, if_pos hlow, Nat.div_eq_of_lt hlow]
    exact ⟨(Nat.mul_one _).symm, rfl⟩
  · have hdiv : ((scale - 1) * leadingBit + mantissa) / leadingBit = scale := by
      unfold leadingBit at *
      omega
    have hmod : leadingBit + ((scale - 1) * leadingBit + mantissa) % leadingBit = mantissa := by
      unfold leadingBit at *
      omega
    refine ⟨?_, by rw [hdiv]⟩
    rw [amountAt, if_neg (by unfold leadingBit at *; omega), hdiv, hmod]

/-- The number that is so many steps from zero. -/
def valueAt (n : Nat) : ℚ :=
  amountAt n / 2 ^ 1074

theorem valueAt_zero : valueAt 0 = 0 :=
  zero_div _

theorem valueAt_strictMono : StrictMono valueAt := fun m n h =>
  div_lt_div_of_pos_right (Nat.cast_lt.mpr (amountAt_strictMono h)) (by positivity)

theorem valueAt_nonneg (n : Nat) : 0 ≤ valueAt n :=
  div_nonneg (Nat.cast_nonneg _) (by positivity)

theorem steps_of_magnitude_eq_finite (h : magnitude x = .finite mantissa scale) :
    steps x = (scale - 1) * leadingBit + mantissa :=
  (of_magnitude_eq_finite h).2

theorem magnitude_value_eq (h : isNaN x = false) : (magnitude x).value = valueAt (steps x) := by
  cases hx : magnitude x with
  | nan => exact absurd hx (magnitude_ne_nan h)
  | infinite =>
    have hsteps : steps x = 2047 * leadingBit := of_magnitude_eq_infinite hx
    have hamount : amountAt (2047 * leadingBit) = leadingBit * 2 ^ 2046 := by
      rw [amountAt, if_neg (by decide), Nat.mul_mod_left, Nat.mul_div_cancel _ (by decide),
        Nat.add_zero]
    have hleading : (leadingBit : ℚ) = 2 ^ 52 := by norm_num [leadingBit]
    rw [hsteps, valueAt, hamount, Magnitude.value, eq_div_iff (by positivity), Nat.cast_mul,
      Nat.cast_pow, Nat.cast_ofNat, hleading, ← pow_add, ← pow_add]
  | finite mantissa scale =>
    have hmagnitude := (of_magnitude_eq_finite hx).1
    have hpos := hmagnitude.scale_pos
    rw [steps_of_magnitude_eq_finite hx, valueAt, (amountAt_of_isMagnitude hmagnitude).1,
      Magnitude.value, show (scale : ℤ) - 1075 = (scale - 1 : Nat) - (1074 : Nat) by omega,
      zpow_sub₀ two_ne_zero, zpow_natCast, zpow_natCast, Nat.cast_mul, Nat.cast_pow, Nat.cast_ofNat,
      mul_div_assoc]

theorem value_eq (h : isNaN x = false) : value x = signed (isNegative x) (valueAt (steps x)) := by
  rw [value, magnitude_value_eq h]

/-! ## The nearest double -/

/-- The double is nearest to the number. If another one is equally near, its last bit is 0. -/
structure IsNearest (q : ℚ) (x : Float) : Prop where
  notNaN : isNaN x = false
  le : ∀ y, isNaN y = false → |q - value x| ≤ |q - value y|
  even : ∀ y, isNaN y = false → value y ≠ value x → |q - value x| = |q - value y| →
    x.toBits.toNat % 2 = 0

theorem toBits_mod_two (x : Float) : x.toBits.toNat % 2 = steps x % 2 := by
  have hbits := toNat_toBits x
  unfold signBit at hbits
  split at hbits <;> omega

theorem highEnd_eq (h : IsMagnitude mantissa scale) {n : Nat}
    (hn : n = (scale - 1) * leadingBit + mantissa) :
    highEnd mantissa scale = 2 * (amountAt n + amountAt (n + 1)) := by
  obtain ⟨hamount, hscale⟩ := amountAt_of_isMagnitude h
  rw [← hn] at hamount hscale
  rw [amountAt_succ, hscale, hamount, highEnd]
  ring

theorem lowEnd_eq (h : IsMagnitude mantissa scale) {n : Nat}
    (hn : n + 1 = (scale - 1) * leadingBit + mantissa) :
    lowEnd mantissa scale = 2 * (amountAt n + amountAt (n + 1)) := by
  obtain ⟨hamount, -⟩ := amountAt_of_isMagnitude h
  obtain ⟨hpos, -, hlt, hfull⟩ := h
  rw [← hn, amountAt_succ] at hamount
  -- the step down from a power of two is half as long
  have hbelow : (if mantissa = leadingBit ∧ 1 < scale then 1 else 2) * 2 ^ (scale - 1) =
      2 * 2 ^ (n / leadingBit - 1) := by
    split_ifs with hpower
    · obtain ⟨k, rfl⟩ : ∃ k, scale = k + 2 := ⟨scale - 2, by omega⟩
      have hscale : n / leadingBit - 1 = k := by
        rw [hpower.1] at hn
        unfold leadingBit at *
        omega
      rw [hscale, show k + 2 - 1 = k + 1 by omega, Nat.pow_succ]
      ring
    · have hscale : n / leadingBit - 1 = scale - 1 := by
        unfold leadingBit at *
        omega
      rw [hscale]
  rw [lowEnd, Nat.sub_mul, hbelow, amountAt_succ]
  rw [Nat.mul_assoc, ← hamount]
  omega

theorem units_pos : (0 : ℚ) < (units : Nat) := by
  rw [units]
  positivity

theorem valueAt_add_valueAt (m n : Nat) :
    valueAt m + valueAt n = 2 * ((2 * (amountAt m + amountAt n) : Nat) / (units : Nat)) := by
  have hunits : ((units : Nat) : ℚ) = 4 * 2 ^ 1074 := by
    rw [units, Nat.cast_pow, show 1076 = 2 + 1074 by rfl, pow_add]
    norm_num only
  rw [hunits, valueAt, valueAt]
  push_cast
  field_simp
  ring

theorem steps_mod_two (hx : magnitude x = .finite mantissa scale) :
    steps x % 2 = mantissa % 2 := by
  rw [steps_of_magnitude_eq_finite hx]
  unfold leadingBit
  omega

theorem Rounds.midpoint_le (h : Rounds v mantissa scale) (hx : magnitude x = .finite mantissa scale)
    {n : Nat} (hn : n < steps x) :
    valueAt n + valueAt (steps x) ≤ 2 * v ∧
      (valueAt n + valueAt (steps x) = 2 * v → steps x % 2 = 0) := by
  obtain ⟨k, hk⟩ : ∃ k, steps x = k + 1 := ⟨steps x - 1, by omega⟩
  have hlow := h.low_le
  have hodd := h.low_ne
  rw [lowEnd_eq (of_magnitude_eq_finite hx).1
    (hk.symm.trans (steps_of_magnitude_eq_finite hx))] at hlow hodd
  have hmidpoint := valueAt_add_valueAt k (k + 1)
  rw [← div_le_iff₀ units_pos] at hlow
  have hle := valueAt_strictMono.monotone (show n ≤ k by omega)
  rw [steps_mod_two hx, hk]
  refine ⟨by linarith, fun heq => (Nat.mod_two_eq_zero_or_one _).resolve_right fun h1 => ?_⟩
  refine hodd h1 ?_
  rw [← eq_div_iff units_pos.ne']
  linarith

theorem Rounds.le_midpoint (h : Rounds v mantissa scale) (hx : magnitude x = .finite mantissa scale)
    {n : Nat} (hn : steps x < n) :
    2 * v ≤ valueAt (steps x) + valueAt n ∧
      (2 * v = valueAt (steps x) + valueAt n → steps x % 2 = 0) := by
  have hhigh := h.le_high
  have hodd := h.ne_high
  rw [highEnd_eq (of_magnitude_eq_finite hx).1 (steps_of_magnitude_eq_finite hx)] at hhigh hodd
  have hmidpoint := valueAt_add_valueAt (steps x) (steps x + 1)
  rw [← le_div_iff₀ units_pos] at hhigh
  have hle := valueAt_strictMono.monotone (show steps x + 1 ≤ n from hn)
  refine ⟨by linarith, fun heq => (Nat.mod_two_eq_zero_or_one _).resolve_right fun h1 => ?_⟩
  rw [steps_mod_two hx] at h1
  refine hodd h1 ?_
  rw [← eq_div_iff units_pos.ne']
  linarith

theorem abs_signed_sub (negative : Bool) (v w : ℚ) :
    |signed negative v - signed negative w| = |v - w| := by
  cases negative with
  | false => rfl
  | true => rw [signed, signed, if_pos rfl, if_pos rfl, neg_sub_neg, abs_sub_comm]

theorem abs_signed_sub_not (negative : Bool) {v w : ℚ} (hv : 0 ≤ v) (hw : 0 ≤ w) :
    |signed negative v - signed (!negative) w| = v + w := by
  cases negative with
  | false =>
    show |v - -w| = v + w
    rw [sub_neg_eq_add, abs_of_nonneg (add_nonneg hv hw)]
  | true =>
    show |-v - w| = v + w
    rw [← neg_add', abs_neg, abs_of_nonneg (add_nonneg hv hw)]

/-- What rounds to a magnitude is nearest to its value, and if it is equally near to another value, the
number of steps is even. -/
theorem Rounds.abs_sub_le (h : Rounds v mantissa scale) (hx : magnitude x = .finite mantissa scale)
    (n : Nat) : |v - valueAt (steps x)| ≤ |v - valueAt n| ∧
      (n ≠ steps x → |v - valueAt (steps x)| = |v - valueAt n| → steps x % 2 = 0) := by
  rcases lt_trichotomy n (steps x) with hlt | rfl | hgt
  · obtain ⟨hle, heven⟩ := h.midpoint_le hx hlt
    have hvalue := valueAt_strictMono hlt
    rw [abs_of_nonneg (show 0 ≤ v - valueAt n by linarith)]
    refine ⟨abs_le.mpr ⟨by linarith, by linarith⟩, fun _ heq => heven ?_⟩
    rcases abs_choice (v - valueAt (steps x)) with h1 | h1 <;> linarith
  · exact ⟨le_rfl, fun hne => absurd rfl hne⟩
  · obtain ⟨hle, heven⟩ := h.le_midpoint hx hgt
    have hvalue := valueAt_strictMono hgt
    rw [abs_of_nonpos (show v - valueAt n ≤ 0 by linarith)]
    refine ⟨abs_le.mpr ⟨by linarith, by linarith⟩, fun _ heq => heven ?_⟩
    rcases abs_choice (v - valueAt (steps x)) with h1 | h1 <;> linarith

theorem abs_signed_sub_value (hv : 0 ≤ v) (hy : isNaN y = false) (negative : Bool) :
    |signed negative v - value y| =
      if isNegative y = negative then |v - valueAt (steps y)| else v + valueAt (steps y) := by
  rw [value_eq hy]
  split_ifs with hsign
  · rw [hsign, abs_signed_sub]
  · rw [Bool.eq_not_of_ne hsign, abs_signed_sub_not _ hv (valueAt_nonneg _)]

/-- **What rounds to the magnitude of a double is read as the double**, with its sign. -/
theorem isNearest_of_rounds (hv : 0 ≤ v) (h : Rounds v mantissa scale)
    (hx : magnitude x = .finite mantissa scale) : IsNearest (signed (isNegative x) v) x := by
  have hnan : isNaN x = false := by rw [isNaN, hx]; rfl
  have hself : |signed (isNegative x) v - value x| = |v - valueAt (steps x)| := by
    rw [abs_signed_sub_value hv hnan, if_pos rfl]
  have hzero : |v - valueAt 0| = v := by rw [valueAt_zero, sub_zero, abs_of_nonneg hv]
  obtain ⟨hle0, heven0⟩ := h.abs_sub_le hx 0
  rw [hzero] at hle0 heven0
  refine ⟨hnan, fun y hy => ?_, fun y hy hne heq => ?_⟩
  · rw [hself, abs_signed_sub_value hv hy]
    split_ifs
    · exact (h.abs_sub_le hx _).1
    · exact hle0.trans (le_add_of_nonneg_right (valueAt_nonneg _))
  · rw [hself, abs_signed_sub_value hv hy] at heq
    rw [value_eq hnan, value_eq hy] at hne
    rw [toBits_mod_two]
    split_ifs at heq with hsign
    · exact (h.abs_sub_le hx _).2 (fun hsteps => hne (by rw [hsign, hsteps])) heq
    · -- both are zero, or the double is as far away as zero, which is another one
      have hnone : valueAt (steps y) = 0 := by
        have hpos := valueAt_nonneg (steps y)
        linarith
      refine heven0 (fun hsteps => hne ?_) (by linarith)
      rw [hnone, ← hsteps, valueAt_zero]
      cases isNegative x <;> cases isNegative y <;> simp [signed]

theorem exists_signed_eq (negative : Bool) (q : ℚ) : ∃ v, signed negative v = q := by
  cases negative with
  | false => exact ⟨q, rfl⟩
  | true => exact ⟨-q, neg_neg q⟩

theorem abs_sub_lt_of_between {a b c : ℚ} (hab : a < b) (hbc : b < c) (h : |v - a| = |v - c|) :
    |v - b| < |v - a| := by
  have hmiddle : 2 * v = a + c := by
    rcases abs_eq_abs.mp h with h1 | h1 <;> linarith
  rw [abs_of_pos (show 0 < v - a by linarith)]
  exact abs_lt.mpr ⟨by linarith, by linarith⟩

/-- **A number is read as one double of each sign.** -/
theorem IsNearest.eq (hx : IsNearest q x) (hy : IsNearest q y)
    (hsign : isNegative x = isNegative y) : x = y := by
  by_contra hne
  wlog hlt : steps x < steps y generalizing x y
  · refine this hy hx hsign.symm (Ne.symm hne) (lt_of_le_of_ne (Nat.le_of_not_lt hlt) fun h => ?_)
    exact hne (eq_of_steps_eq hsign h.symm)
  have hdistance := le_antisymm (hx.le y hy.notNaN) (hy.le x hx.notNaN)
  have hvalue : value x ≠ value y := by
    rw [value_eq hx.notNaN, value_eq hy.notNaN, ← hsign]
    intro h
    have hzero := abs_signed_sub (isNegative x) (valueAt (steps x)) (valueAt (steps y))
    rw [h, sub_self, abs_zero, eq_comm, abs_eq_zero, sub_eq_zero] at hzero
    exact hlt.ne (valueAt_strictMono.injective hzero)
  have hevenx := hx.even y hy.notNaN hvalue.symm hdistance
  have heveny := hy.even x hx.notNaN hvalue hdistance.symm
  rw [toBits_mod_two] at hevenx heveny
  -- both last bits are 0, so that there is a double in between
  have hinfinity := isNaN_eq_false_iff.mp hy.notNaN
  obtain ⟨z, hz, hsteps⟩ := exists_steps_eq (show steps x + 1 ≤ stepsToInfinity by omega)
    (isNegative x)
  have hnan : isNaN z = false := isNaN_eq_false_iff.mpr (by omega)
  have hle := hx.le z hnan
  obtain ⟨v, rfl⟩ := exists_signed_eq (isNegative x) q
  rw [value_eq hx.notNaN, value_eq hy.notNaN, ← hsign, abs_signed_sub,
    abs_signed_sub] at hdistance
  rw [value_eq hx.notNaN, value_eq hnan, hz, abs_signed_sub, abs_signed_sub] at hle
  exact absurd hle (not_le.mpr (abs_sub_lt_of_between (valueAt_strictMono (by omega))
    (valueAt_strictMono (by omega)) hdistance))

end SurveyTables.Number

import SurveyTables.Proofs.Number.Nearest

/-!
# The form of the shortest decimal

Since the highest power of ten is taken that has a multiple in the interval, the last digit of the
coefficient is not 0, and the exponent is negative only for numbers that are not whole.

* `Interval.holds_mul_of_nearest?_eq_none`: what it means that no multiple is found;
* `Interval.coefficient_roundest`, `Interval.le_exponent_roundest`: the search;
* **`coefficient_shortest`**: the last digit is not 0;
* `middle_eq_value`, **`exponent_shortest_nonneg_iff`**: which numbers are written as whole ones;
* **`value_shortest_eq`**: below `2 ^ 53` these are written exactly.
-/

namespace SurveyTables.Number

variable {tie : Tie} {mantissa scale : Nat}

/-! ## The search -/

namespace Interval

variable {i : Interval} (hmiddle : i.holds i.middle = true)

theorem holds_of_le_of_le {a b c : Nat} (ha : i.holds a = true) (hc : i.holds c = true)
    (hab : a ≤ b) (hbc : b ≤ c) : i.holds b = true := by
  unfold holds at *
  split_ifs at * <;> simp only [Bool.and_eq_true, decide_eq_true_eq] at * <;> omega

theorem neighbours_of_nearest?_eq_none {step : Nat} (h : i.nearest? tie step = none) :
    i.holds (i.middle / step * step) = false ∧ i.holds ((i.middle / step + 1) * step) = false := by
  unfold nearest? at h
  dsimp only at h
  split at h
  · split at h <;> exact nomatch h
  · exact nomatch h
  · exact nomatch h
  · exact ⟨‹_›, ‹_›⟩

section

include hmiddle

theorem holds_mul_of_nearest?_eq_none {step : Nat} (hstep : 0 < step)
    (h : i.nearest? tie step = none) (n : Nat) : i.holds (n * step) = false := by
  obtain ⟨hbelow, habove⟩ := neighbours_of_nearest?_eq_none h
  rw [← Bool.not_eq_true] at hbelow habove ⊢
  intro hn
  rcases Nat.lt_or_ge (i.middle / step) n with hlt | hge
  · have hle := Nat.mul_le_mul_right step (show i.middle / step + 1 ≤ n from hlt)
    have hmid := (Nat.lt_mul_of_div_lt (Nat.lt_succ_self (i.middle / step)) hstep).le
    exact habove (holds_of_le_of_le hmiddle hn hmid hle)
  · exact hbelow (holds_of_le_of_le hn hmiddle (Nat.mul_le_mul_right step hge)
      (Nat.div_mul_le_self _ _))

/-- The coefficient does not end in 0, unless a higher power of ten has a multiple in the interval as
well. -/
theorem coefficient_roundest {power : Nat} (h : ∀ n, i.holds (n * 10 ^ (power + 1)) = false) :
    (i.roundest tie power).coefficient % 10 ≠ 0 := by
  induction power with
  | zero =>
    intro hzero
    change i.middle % 10 = 0 at hzero
    have hmul := h (i.middle / 10)
    rw [Nat.zero_add, pow_one, Nat.div_mul_cancel (Nat.dvd_of_mod_eq_zero hzero), hmiddle] at hmul
    exact nomatch hmul
  | succ power ih =>
    rw [roundest]
    split
    · next n hn =>
      intro hzero
      have hmul := h (n / 10)
      rw [pow_succ', ← Nat.mul_assoc, Nat.div_mul_cancel (Nat.dvd_of_mod_eq_zero hzero)] at hmul
      exact absurd (holds_of_nearest? hn) (Bool.eq_false_iff.mp hmul)
    · next hnone => exact ih (holds_mul_of_nearest?_eq_none hmiddle (Nat.pow_pos (by decide)) hnone)

theorem le_exponent_roundest (tie : Tie) {power k : Nat} (hk : k ≤ power) (hdvd : 10 ^ k ∣ i.middle) :
    (k : Int) - i.places ≤ (i.roundest tie power).exponent := by
  induction power with
  | zero =>
    obtain rfl := Nat.le_zero.mp hk
    show (0 : Int) - i.places ≤ -i.places
    omega
  | succ power ih =>
    rw [roundest]
    split
    · show (k : Int) - i.places ≤ (power + 1 : Nat) - i.places
      omega
    · next hnone =>
      have hne : k ≠ power + 1 := by
        rintro rfl
        obtain ⟨n, hn⟩ := hdvd
        have hmul := holds_mul_of_nearest?_eq_none hmiddle (Nat.pow_pos (by decide)) hnone n
        rw [Nat.mul_comm] at hmul
        exact Bool.false_ne_true (hmul.symm.trans (hn ▸ hmiddle))
      exact ih (by omega)

end

end Interval

/-! ## The shortest decimal of a magnitude -/

theorem unit_pos (scale : Nat) : 0 < Nat.pow 2 (scale - 1077) * Nat.pow 5 (1077 - scale) :=
  Nat.mul_pos (Nat.pow_pos (by decide)) (Nat.pow_pos (by decide))

theorem low_pos (hne : mantissa ≠ 0) : 0 < (interval mantissa scale).low := by
  refine Nat.mul_pos ?_ (unit_pos scale)
  split <;> omega

theorem lt_ten_pow_log2 (n : Nat) : n < 10 ^ (n.log2 / 3 + 1) := by
  calc n < 2 ^ (n.log2 + 1) := Nat.lt_log2_self
    _ ≤ 2 ^ (3 * (n.log2 / 3 + 1)) := Nat.pow_le_pow_right (by decide) (by omega)
    _ = 8 ^ (n.log2 / 3 + 1) := by rw [Nat.pow_mul]
    _ ≤ 10 ^ (n.log2 / 3 + 1) := Nat.pow_le_pow_left (by decide) _

/-- **The last digit of the shortest decimal is not 0**, unless the number is. -/
theorem coefficient_shortest (hne : mantissa ≠ 0) :
    (shortest tie mantissa scale).coefficient % 10 ≠ 0 := by
  rw [shortest, if_neg hne]
  refine Interval.coefficient_roundest (holds_middle mantissa scale) fun n => ?_
  rw [← Bool.not_eq_true]
  intro hn
  obtain ⟨hlow, hhigh, -⟩ := holds_interval_iff.mp hn
  have hpos : 0 < n := by
    have hlowPos : 0 < (interval mantissa scale).low := low_pos hne
    exact Nat.pos_of_mul_pos_right (hlowPos.trans_le hlow)
  have hbound := lt_ten_pow_log2 (interval mantissa scale).high
  have hmul := Nat.le_mul_of_pos_left (10 ^ ((interval mantissa scale).high.log2 / 3 + 1 + 1)) hpos
  have hpow := Nat.pow_le_pow_right (show 10 > 0 by decide)
    (show (interval mantissa scale).high.log2 / 3 + 1 ≤
      (interval mantissa scale).high.log2 / 3 + 1 + 1 by omega)
  omega

theorem middle_eq_value (mantissa scale : Nat) : ((interval mantissa scale).middle : ℚ) =
    (Magnitude.finite mantissa scale).value * 10 ^ (interval mantissa scale).places := by
  show ((4 * mantissa * (2 ^ (scale - 1077) * 5 ^ (1077 - scale)) : Nat) : ℚ) =
    mantissa * 2 ^ ((scale : ℤ) - 1075) * 10 ^ (1077 - scale)
  obtain ⟨up, hup⟩ : ∃ up, up = scale - 1077 := ⟨_, rfl⟩
  obtain ⟨down, hdown⟩ : ∃ down, down = 1077 - scale := ⟨_, rfl⟩
  rw [← hup, ← hdown, show (scale : ℤ) - 1075 = (up : ℤ) + 2 - (down : ℤ) by omega,
    zpow_sub₀ two_ne_zero, zpow_add₀ two_ne_zero, show (10 : ℚ) = 2 * 5 by norm_num, mul_pow]
  push_cast
  simp only [zpow_natCast]
  field_simp

theorem value_eq_of_rounds (hscale : 1 ≤ scale) (hle : scale ≤ 1075) {n : Nat}
    (h : Rounds n mantissa scale) : (Magnitude.finite mantissa scale).value = n := by
  have hlow : lowEnd mantissa scale ≤ n * units := by exact_mod_cast h.low_le
  have hhigh : n * units ≤ highEnd mantissa scale := by exact_mod_cast h.le_high
  have hunits : n * units = 4 * (n * 2 ^ (1075 - scale)) * 2 ^ (scale - 1) := by
    rw [units, show 1076 = 2 + (1075 - scale) + (scale - 1) by omega, pow_add, pow_add]
    ring
  rw [hunits, lowEnd] at hlow
  rw [hunits, highEnd] at hhigh
  have hmantissa : n * 2 ^ (1075 - scale) = mantissa := by
    have hbelow := Nat.le_of_mul_le_mul_right hlow (Nat.two_pow_pos _)
    have habove := Nat.le_of_mul_le_mul_right hhigh (Nat.two_pow_pos _)
    split_ifs at hbelow <;> omega
  rw [Magnitude.value, ← hmantissa, show (scale : ℤ) - 1075 = -(1075 - scale : Nat) by omega,
    zpow_neg, zpow_natCast]
  push_cast
  field_simp

theorem value_eq_natCast_of_exponent {d : Decimal} (h : 0 ≤ d.exponent) :
    ∃ n : Nat, d.value = n := by
  obtain ⟨k, hk⟩ := Int.eq_ofNat_of_zero_le h
  refine ⟨d.coefficient * 10 ^ k, ?_⟩
  rw [Decimal.value, hk]
  push_cast
  rw [zpow_natCast]

/-- **Whole numbers below `2 ^ 53` are written exactly.** -/
theorem value_shortest_eq (h : IsMagnitude mantissa scale) (hle : scale ≤ 1075)
    (hexponent : 0 ≤ (shortest tie mantissa scale).exponent) :
    (shortest tie mantissa scale).value = (Magnitude.finite mantissa scale).value := by
  obtain ⟨n, hn⟩ := value_eq_natCast_of_exponent hexponent
  have hrounds := rounds_shortest tie h
  rw [hn] at hrounds ⊢
  exact (value_eq_of_rounds h.scale_pos hle hrounds).symm

theorem exponent_shortest_nonneg {n : Nat} (hn : (Magnitude.finite mantissa scale).value = n) :
    0 ≤ (shortest tie mantissa scale).exponent := by
  by_cases hne : mantissa = 0
  · rw [shortest, if_pos hne]
  have hmiddle : (interval mantissa scale).middle = n * 10 ^ (interval mantissa scale).places := by
    have hvalue := middle_eq_value mantissa scale
    rw [hn] at hvalue
    exact_mod_cast hvalue
  have hpos : 0 < (interval mantissa scale).middle :=
    Nat.mul_pos (by omega) (unit_pos scale)
  have hplaces : (interval mantissa scale).places ≤ (interval mantissa scale).high.log2 / 3 + 1 := by
    have hhigh := (holds_interval_iff.mp (holds_middle mantissa scale)).2.1
    have hpow : 2 ^ (3 * (interval mantissa scale).places) ≤ (interval mantissa scale).high := by
      calc 2 ^ (3 * (interval mantissa scale).places)
          = 8 ^ (interval mantissa scale).places := by rw [Nat.pow_mul]
        _ ≤ 10 ^ (interval mantissa scale).places := Nat.pow_le_pow_left (by decide) _
        _ ≤ (interval mantissa scale).middle :=
          Nat.le_of_dvd hpos (Dvd.intro_left n hmiddle.symm)
        _ ≤ (interval mantissa scale).high := hhigh
    have hlog := (Nat.le_log2 (by omega)).mpr hpow
    omega
  have hexponent := Interval.le_exponent_roundest (holds_middle mantissa scale) tie hplaces
    (Dvd.intro_left n hmiddle.symm)
  rw [shortest, if_neg hne]
  rw [sub_self] at hexponent
  exact hexponent

/-- **Just the whole numbers are written as whole ones.** -/
theorem exponent_shortest_nonneg_iff (h : IsMagnitude mantissa scale) :
    0 ≤ (shortest tie mantissa scale).exponent ↔
      ∃ n : Nat, (Magnitude.finite mantissa scale).value = n := by
  refine ⟨fun hexponent => ?_, fun ⟨n, hn⟩ => exponent_shortest_nonneg hn⟩
  rcases Nat.le_total scale 1075 with hle | hge
  · rw [← value_shortest_eq h hle hexponent]
    exact value_eq_natCast_of_exponent hexponent
  · refine ⟨mantissa * 2 ^ (scale - 1075), ?_⟩
    rw [Magnitude.value, show (scale : ℤ) - 1075 = (scale - 1075 : Nat) by omega, zpow_natCast]
    push_cast
    rfl

theorem scale_le_of_value_lt (h : IsMagnitude mantissa scale)
    (hlt : (Magnitude.finite mantissa scale).value < leadingBit) : scale ≤ 1075 := by
  by_contra hgt
  have hfull : (leadingBit : ℚ) ≤ mantissa := Nat.cast_le.mpr (h.leadingBit_le (by omega))
  have hpow : (1 : ℚ) ≤ 2 ^ ((scale : ℤ) - 1075) := one_le_zpow₀ one_le_two (by omega)
  have hvalue : (mantissa : ℚ) ≤ (Magnitude.finite mantissa scale).value :=
    le_mul_of_one_le_right (Nat.cast_nonneg _) hpow
  linarith

end SurveyTables.Number

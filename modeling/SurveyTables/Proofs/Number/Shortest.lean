import SurveyTables.Number.Shortest
import SurveyTables.Proofs.Number.Decimal
import SurveyTables.Proofs.Number.Magnitude

/-!
# The text of a double tells which it is

* `units`, `lowEnd`, `highEnd`, `Rounds`: a number rounds to a magnitude;
* `Interval.exists_holds_roundest`: the decimal that is taken lies in the interval of the magnitude;
* **`rounds_shortest`**: the decimal that is taken for a magnitude rounds to it;
* **`Rounds.unique`**: a number rounds to one magnitude at most;
* `unsignedChars`, `toList_text`: a text is a sign and the text of the magnitude;
* **`text_injective`**: two doubles that are not NaN and have the same text are the same.
-/

namespace SurveyTables.Number

/-! ## Rounding -/

/-- So many units make up 1, of which every double and every point halfway between two is a whole
number. -/
def units : Nat := 2 ^ 1076

/-- The lower end of the numbers that round to a magnitude, in units. -/
def lowEnd (mantissa scale : Nat) : Nat :=
  (4 * mantissa - if mantissa = leadingBit ∧ 1 < scale then 1 else 2) * 2 ^ (scale - 1)

/-- The upper end of the numbers that round to a magnitude, in units. -/
def highEnd (mantissa scale : Nat) : Nat :=
  (4 * mantissa + 2) * 2 ^ (scale - 1)

/-- The number rounds to the magnitude `mantissa * 2 ^ (scale - 1075)`. The ends of the numbers that do
lie halfway to the neighbours, and belong to the one with an even mantissa. -/
structure Rounds (v : ℚ) (mantissa scale : Nat) : Prop where
  low_le : lowEnd mantissa scale ≤ v * units
  le_high : v * units ≤ highEnd mantissa scale
  low_ne : mantissa % 2 = 1 → v * units ≠ lowEnd mantissa scale
  ne_high : mantissa % 2 = 1 → v * units ≠ highEnd mantissa scale

variable {v : ℚ} {mantissa scale : Nat}

/-! ## The decimal that is taken -/

namespace Interval

variable {i : Interval}

theorem holds_of_nearest? {tie : Tie} {step n : Nat} (h : i.nearest? tie step = some n) :
    i.holds (n * step) = true := by
  unfold nearest? at h
  dsimp only at h
  split at h
  · next hbelow habove =>
    split at h
    · obtain rfl := Option.some.inj h; exact hbelow
    · obtain rfl := Option.some.inj h
      cases tie with
      | upper => exact habove
      | even =>
        rw [Tie.choose]
        rcases Nat.mod_two_eq_zero_or_one (i.middle / step) with heven | hodd
        · rw [heven]; exact hbelow
        · rw [hodd]; exact habove
    · obtain rfl := Option.some.inj h; exact habove
  · next hbelow _ => obtain rfl := Option.some.inj h; exact hbelow
  · next _ habove => obtain rfl := Option.some.inj h; exact habove
  · exact nomatch h

theorem exists_holds_roundest (tie : Tie) (hmiddle : i.holds i.middle = true) (power : Nat) :
    ∃ n, i.holds n = true ∧ (i.roundest tie power).value = n / 10 ^ i.places := by
  induction power with
  | zero =>
    refine ⟨i.middle, hmiddle, ?_⟩
    rw [roundest, Decimal.value, zpow_neg, zpow_natCast, div_eq_mul_inv]
  | succ power ih =>
    rw [roundest]
    split
    · next n hn =>
      refine ⟨n * 10 ^ (power + 1), holds_of_nearest? hn, ?_⟩
      rw [Decimal.value, zpow_sub₀ (by norm_num), zpow_natCast, zpow_natCast]
      push_cast
      ring
    · exact ih

end Interval

theorem pow_mul_units (hscale : 1 ≤ scale) :
    2 ^ (scale - 1077) * 5 ^ (1077 - scale) * units = 2 ^ (scale - 1) * 10 ^ (1077 - scale) := by
  unfold units
  rcases Nat.le_total scale 1077 with hle | hge
  · have hexponent : 1076 = scale - 1 + (1077 - scale) := by omega
    rw [Nat.sub_eq_zero_of_le hle, hexponent, pow_add, show 10 = 2 * 5 from rfl, mul_pow]
    ring
  · have hexponent : scale - 1 = scale - 1077 + 1076 := by omega
    rw [Nat.sub_eq_zero_of_le hge, hexponent, pow_add, pow_zero, pow_zero, mul_one, mul_one]

theorem low_mul_units (mantissa : Nat) (hscale : 1 ≤ scale) :
    (interval mantissa scale).low * units =
      lowEnd mantissa scale * 10 ^ (interval mantissa scale).places := by
  rw [lowEnd, mul_assoc, interval, ← pow_mul_units hscale]
  exact mul_assoc _ _ _

theorem high_mul_units (mantissa : Nat) (hscale : 1 ≤ scale) :
    (interval mantissa scale).high * units =
      highEnd mantissa scale * 10 ^ (interval mantissa scale).places := by
  rw [highEnd, mul_assoc, interval, ← pow_mul_units hscale]
  exact mul_assoc _ _ _

theorem holds_interval_iff {n : Nat} : (interval mantissa scale).holds n = true ↔
    (interval mantissa scale).low ≤ n ∧ n ≤ (interval mantissa scale).high ∧
      (mantissa % 2 = 1 → (interval mantissa scale).low < n ∧
        n < (interval mantissa scale).high) := by
  have hclosed : (interval mantissa scale).closed = (mantissa % 2 == 0) := rfl
  rw [Interval.holds, hclosed]
  split
  · next heven =>
    rw [beq_iff_eq] at heven
    simp only [Bool.and_eq_true, decide_eq_true_eq]
    omega
  · next hodd =>
    rw [beq_iff_eq] at hodd
    simp only [Bool.and_eq_true, decide_eq_true_eq]
    omega

theorem holds_middle (mantissa scale : Nat) :
    (interval mantissa scale).holds (interval mantissa scale).middle = true := by
  rw [holds_interval_iff]
  unfold interval
  dsimp only
  have hunit : 0 < Nat.pow 2 (scale - 1077) * Nat.pow 5 (1077 - scale) :=
    Nat.mul_pos (Nat.pow_pos (by decide)) (Nat.pow_pos (by decide))
  have hbelow : 0 < if mantissa = leadingBit ∧ 1 < scale then 1 else 2 := by split <;> decide
  refine ⟨Nat.mul_le_mul_right _ (by omega), Nat.mul_le_mul_right _ (by omega), fun hodd => ?_⟩
  exact ⟨Nat.mul_lt_mul_of_pos_right (by omega) hunit,
    Nat.mul_lt_mul_of_pos_right (by omega) hunit⟩

theorem rounds_of_holds (hscale : 1 ≤ scale) {n : Nat}
    (hn : (interval mantissa scale).holds n = true) :
    Rounds (n / 10 ^ (interval mantissa scale).places) mantissa scale := by
  obtain ⟨hlow, hhigh, hodd⟩ := holds_interval_iff.mp hn
  have hlowEnd := low_mul_units mantissa hscale
  have hhighEnd := high_mul_units mantissa hscale
  have hunits : 0 < units := by
    rw [units]
    positivity
  have hpow : (0 : ℚ) < 10 ^ (interval mantissa scale).places := by positivity
  have hvalue : (n / 10 ^ (interval mantissa scale).places : ℚ) * units =
      n * units / 10 ^ (interval mantissa scale).places := div_mul_eq_mul_div _ _ _
  refine ⟨?_, ?_, fun h => ?_, fun h => ?_⟩
  · have hle := Nat.mul_le_mul_right units hlow
    rw [hlowEnd] at hle
    rw [hvalue, le_div_iff₀ hpow]
    exact_mod_cast hle
  · have hle := Nat.mul_le_mul_right units hhigh
    rw [hhighEnd] at hle
    rw [hvalue, div_le_iff₀ hpow]
    exact_mod_cast hle
  · have hlt := Nat.mul_lt_mul_of_pos_right (hodd h).1 hunits
    rw [hlowEnd] at hlt
    apply ne_of_gt
    rw [hvalue, lt_div_iff₀ hpow]
    exact_mod_cast hlt
  · have hlt := Nat.mul_lt_mul_of_pos_right (hodd h).2 hunits
    rw [hhighEnd] at hlt
    apply ne_of_lt
    rw [hvalue, div_lt_iff₀ hpow]
    exact_mod_cast hlt

/-- **The decimal that is taken for a magnitude rounds to it.** -/
theorem rounds_shortest (tie : Tie) (h : IsMagnitude mantissa scale) :
    Rounds (shortest tie mantissa scale).value mantissa scale := by
  rw [shortest]
  split
  · next hzero =>
    subst hzero
    have hmiddle := rounds_of_holds h.scale_pos (holds_middle 0 scale)
    have hnone : (interval 0 scale).middle = 0 := Nat.zero_mul _
    rw [hnone] at hmiddle
    simpa [Decimal.value] using hmiddle
  · obtain ⟨n, hn, hvalue⟩ := Interval.exists_holds_roundest tie (holds_middle mantissa scale)
      ((interval mantissa scale).high.log2 / 3 + 1)
    dsimp only
    rw [hvalue]
    exact rounds_of_holds h.scale_pos hn

/-! ## No number rounds to two magnitudes -/

/-- The magnitudes in order: the upper end of a smaller one is not above the lower end of a greater
one, and where they meet one mantissa is odd. -/
theorem highEnd_le_lowEnd {m n s t : Nat} (hm : IsMagnitude m s) (hn : IsMagnitude n t)
    (hlt : s < t ∨ s = t ∧ m < n) :
    highEnd m s ≤ lowEnd n t ∧ (highEnd m s = lowEnd n t → m % 2 = 1 ∨ n % 2 = 1) := by
  have hpow : 0 < 2 ^ (s - 1) := Nat.two_pow_pos _
  have hleading : leadingBit = 2 ^ 52 := rfl
  have hmantissa := hm.mantissa_lt
  unfold highEnd lowEnd
  rcases hlt with hlt | ⟨rfl, hlt⟩
  · -- one scale up, the mantissa has its leading bit, and the units are at least twice as large
    have hbelow : 4 * leadingBit - 1 ≤ 4 * n - if n = leadingBit ∧ 1 < t then 1 else 2 := by
      have := hn.leadingBit_le (by have := hm.scale_pos; omega)
      have := hm.scale_pos
      split <;> omega
    generalize 4 * n - (if n = leadingBit ∧ 1 < t then 1 else 2) = low at *
    have hscale : 2 ^ (t - 1) = 2 ^ (t - s) * 2 ^ (s - 1) := by
      rw [← pow_add]
      congr 1
      have := hm.scale_pos
      omega
    have htwo : 2 ≤ 2 ^ (t - s) := Nat.le_self_pow (by omega) 2
    have hdouble : 2 * low ≤ low * 2 ^ (t - s) := by
      rw [mul_comm]
      exact Nat.mul_le_mul_left low htwo
    rw [hscale, ← mul_assoc]
    refine ⟨Nat.mul_le_mul_right _ (by omega), fun hmeet => .inl ?_⟩
    have := Nat.eq_of_mul_eq_mul_right hpow hmeet
    omega
  · refine ⟨Nat.mul_le_mul_right _ (by split <;> omega), fun hmeet => ?_⟩
    have := Nat.eq_of_mul_eq_mul_right hpow hmeet
    split at this <;> omega

theorem Rounds.not_both {m n s t : Nat} (hm : IsMagnitude m s) (hn : IsMagnitude n t)
    (hlt : s < t ∨ s = t ∧ m < n) (hv : Rounds v m s) : ¬ Rounds v n t := by
  intro hv'
  obtain ⟨hle, hodd⟩ := highEnd_le_lowEnd hm hn hlt
  have hle' : (highEnd m s : ℚ) ≤ lowEnd n t := by exact_mod_cast hle
  have hhigh : v * units = highEnd m s :=
    le_antisymm hv.le_high (hle'.trans hv'.low_le)
  have hlow : v * units = lowEnd n t := le_antisymm (hv.le_high.trans hle') hv'.low_le
  have hmeet : highEnd m s = lowEnd n t := by exact_mod_cast hhigh.symm.trans hlow
  rcases hodd hmeet with hm | hn
  · exact hv.ne_high hm hhigh
  · exact hv'.low_ne hn hlow

/-- **A number rounds to one magnitude at most.** -/
theorem Rounds.unique {m n s t : Nat} (hm : IsMagnitude m s) (hn : IsMagnitude n t)
    (hv : Rounds v m s) (hv' : Rounds v n t) : m = n ∧ s = t := by
  by_contra hne
  have hcases : (s < t ∨ s = t ∧ m < n) ∨ (t < s ∨ t = s ∧ n < m) := by omega
  rcases hcases with hlt | hlt
  · exact Rounds.not_both hm hn hlt hv hv'
  · exact Rounds.not_both hn hm hlt hv' hv

/-! ## Texts -/

/-- **The decimals of different magnitudes are different numbers.** -/
theorem eq_of_value_shortest_eq {tie : Tie} {m n s t : Nat} (hm : IsMagnitude m s)
    (hn : IsMagnitude n t) (h : (shortest tie m s).value = (shortest tie n t).value) :
    m = n ∧ s = t :=
  Rounds.unique hm hn (rounds_shortest tie hm) (h ▸ rounds_shortest tie hn)

/-- A text without its sign. -/
def unsignedChars : Magnitude → List Char
  | .nan => "NaN".toList
  | .infinite => "inf".toList
  | .finite mantissa scale => (shortest .upper mantissa scale).positionalChars

theorem toList_text {x : Float} (h : isNaN x = false) :
    (text x).toList = (sign x).toList ++ unsignedChars (magnitude x) := by
  unfold text
  cases hx : magnitude x with
  | nan => exact absurd hx (magnitude_ne_nan h)
  | infinite => exact String.toList_append
  | finite mantissa scale =>
    rw [String.toList_append, Decimal.positional, String.toList_ofList]
    rfl

theorem unsignedChars_finite_eq_cons (mantissa scale : Nat) :
    ∃ c cs, unsignedChars (.finite mantissa scale) = c :: cs ∧ c.isDigit = true :=
  (shortest .upper mantissa scale).exists_positionalChars_eq_cons

theorem unsignedChars_ne_cons_minus (a : Magnitude) (cs : List Char) :
    unsignedChars a ≠ '-' :: cs := by
  intro h
  cases a with
  | nan | infinite => exact absurd (List.cons.inj h).1 (by decide)
  | finite mantissa scale =>
    obtain ⟨c, cs', hchars, hc⟩ := unsignedChars_finite_eq_cons mantissa scale
    obtain ⟨rfl, -⟩ := List.cons.inj (hchars.symm.trans h)
    exact absurd hc (by decide)

theorem unsignedChars_finite_ne_infinite (mantissa scale : Nat) :
    unsignedChars (.finite mantissa scale) ≠ unsignedChars .infinite := by
  intro h
  obtain ⟨c, cs, hchars, hc⟩ := unsignedChars_finite_eq_cons mantissa scale
  obtain ⟨rfl, -⟩ := List.cons.inj (hchars.symm.trans h)
  exact absurd hc (by decide)

theorem magnitude_eq_of_unsignedChars_eq {x y : Float} (hx : isNaN x = false)
    (hy : isNaN y = false)
    (h : unsignedChars (magnitude x) = unsignedChars (magnitude y)) : magnitude x = magnitude y := by
  cases hmx : magnitude x with
  | nan => exact absurd hmx (magnitude_ne_nan hx)
  | infinite =>
    cases hmy : magnitude y with
    | nan => exact absurd hmy (magnitude_ne_nan hy)
    | infinite => rfl
    | finite n t =>
      rw [hmx, hmy] at h
      exact absurd h.symm (unsignedChars_finite_ne_infinite n t)
  | finite m s =>
    cases hmy : magnitude y with
    | nan => exact absurd hmy (magnitude_ne_nan hy)
    | infinite =>
      rw [hmx, hmy] at h
      exact absurd h (unsignedChars_finite_ne_infinite m s)
    | finite n t =>
      rw [hmx, hmy] at h
      have hread := congrArg Decimal.read h
      rw [unsignedChars, unsignedChars, Decimal.read_positionalChars,
        Decimal.read_positionalChars] at hread
      obtain ⟨rfl, rfl⟩ := eq_of_value_shortest_eq (of_magnitude_eq_finite hmx).1
        (of_magnitude_eq_finite hmy).1 hread
      rfl

/-- **Two doubles that are not NaN and have the same text are the same.** -/
theorem text_injective {x y : Float} (hx : isNaN x = false) (hy : isNaN y = false)
    (h : text x = text y) : x = y := by
  have hchars := congrArg String.toList h
  rw [toList_text hx, toList_text hy] at hchars
  have hsplit : isNegative x = isNegative y ∧
      unsignedChars (magnitude x) = unsignedChars (magnitude y) := by
    unfold sign at hchars
    cases hnx : isNegative x <;> cases hny : isNegative y <;> rw [hnx, hny] at hchars
    · exact ⟨rfl, hchars⟩
    · exact absurd hchars (unsignedChars_ne_cons_minus _ _)
    · exact absurd hchars.symm (unsignedChars_ne_cons_minus _ _)
    · exact ⟨rfl, (List.cons.inj hchars).2⟩
  exact eq_of_magnitude_eq hsplit.1 (magnitude_eq_of_unsignedChars_eq hx hy hsplit.2) hx

end SurveyTables.Number

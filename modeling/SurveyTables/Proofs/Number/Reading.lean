import SurveyTables.Proofs.Number.ShortestForm

/-!
# Texts of doubles in reading

* `IsDigits`, `IsDecimal`: digits with perhaps a point among them, and the number that they are;
* `isDecimal_positionalChars`, `point_mem_positionalChars_iff`, `getLast?_positionalChars`: decimals that
  are written out;
* `ReadsAs`: a text is read as the nearest double, and as a negative one just after a minus;
* **`readsAs_text_iff`**: the text of a finite double is read as this double;
* `mem_text`, **`point_not_mem_text_iff`**, **`ne_zero_of_text_eq`**, **`text_of_value_eq`**: its form.
-/

namespace SurveyTables.Number

variable {cs : List Char} {v : ℚ} {x y : Float}

/-! ## Decimals -/

/-- Decimal digits, at least one of them. -/
def IsDigits (cs : List Char) : Prop :=
  cs ≠ [] ∧ ∀ c ∈ cs, c.isDigit = true

/-- Digits, perhaps with a point between them, and the number that they are. -/
inductive IsDecimal : List Char → ℚ → Prop where
  | whole {ds : List Char} (h : IsDigits ds) : IsDecimal ds (Nat.ofDigitChars 10 ds 0)
  | pointed {ds behind : List Char} (h : IsDigits ds) (hbehind : IsDigits behind) :
    IsDecimal (ds ++ '.' :: behind)
      (Nat.ofDigitChars 10 ds 0 + Nat.ofDigitChars 10 behind 0 / 10 ^ behind.length)

theorem IsDigits.ne_point (h : IsDigits cs) : ∀ c ∈ cs, (c != '.') = true := by
  intro c hc
  rw [bne_iff_ne]
  rintro rfl
  exact absurd (h.2 _ hc) (by decide)

theorem IsDecimal.read_eq (h : IsDecimal cs v) : Decimal.read cs = v := by
  cases h with
  | whole h => exact Decimal.read_whole h.ne_point
  | pointed h hbehind =>
    rw [Decimal.read_pointed h.ne_point]
    push_cast
    field_simp

theorem IsDecimal.ne_cons_minus (h : IsDecimal cs v) (others : List Char) : cs ≠ '-' :: others := by
  rintro rfl
  generalize hcs : '-' :: others = cs at h
  cases h with
  | whole h => exact absurd (h.2 '-' (hcs ▸ List.mem_cons_self)) (by decide)
  | @pointed ds _ h _ =>
    obtain ⟨c, ds, rfl⟩ := List.exists_cons_of_ne_nil h.1
    obtain ⟨rfl, -⟩ := List.cons.inj hcs
    exact absurd (h.2 '-' List.mem_cons_self) (by decide)

theorem IsDecimal.mem (h : IsDecimal cs v) {c : Char} (hc : c ∈ cs) : c.isDigit = true ∨ c = '.' := by
  cases h with
  | whole h => exact .inl (h.2 c hc)
  | pointed h hbehind =>
    rw [List.mem_append, List.mem_cons] at hc
    rcases hc with hc | rfl | hc
    · exact .inl (h.2 c hc)
    · exact .inr rfl
    · exact .inl (hbehind.2 c hc)

theorem IsDecimal.getLast?_ne_point (h : IsDecimal cs v) : cs.getLast? ≠ some '.' := by
  intro hlast
  cases h with
  | whole h => exact absurd (h.ne_point _ (List.mem_of_getLast? hlast)) (by decide)
  | @pointed ds behind h hbehind =>
    rw [List.getLast?_append_of_ne_nil _ (List.cons_ne_nil _ _), List.getLast?_cons_of_ne_nil hbehind.1]
      at hlast
    exact absurd (hbehind.ne_point _ (List.mem_of_getLast? hlast)) (by decide)

theorem isDigits_digits (n : Nat) : IsDigits (Decimal.digits n) :=
  ⟨Nat.toDigits_ne_nil, fun _ => Decimal.isDigit_of_mem_digits⟩

theorem isDigits_padded (width n : Nat) : IsDigits (Decimal.padded width n) := by
  refine ⟨List.append_ne_nil_of_right_ne_nil _ (isDigits_digits n).1, fun c hc => ?_⟩
  rw [Decimal.padded, List.mem_append] at hc
  rcases hc with hc | hc
  · rw [List.eq_of_mem_replicate hc]
    rfl
  · exact Decimal.isDigit_of_mem_digits hc

theorem isDecimal_positionalChars (d : Decimal) : IsDecimal d.positionalChars d.value := by
  obtain ⟨v, hv⟩ : ∃ v, IsDecimal d.positionalChars v := by
    obtain ⟨coefficient, zeros | n⟩ := d
    · exact ⟨_, .whole (isDigits_digits _)⟩
    · rw [Decimal.positionalChars_negSucc]
      exact ⟨_, .pointed (isDigits_digits _) (isDigits_padded _ _)⟩
  rwa [← Decimal.read_positionalChars, hv.read_eq]

theorem point_mem_positionalChars_iff (d : Decimal) : '.' ∈ d.positionalChars ↔ d.exponent < 0 := by
  obtain ⟨coefficient, zeros | n⟩ := d
  · refine iff_of_false (fun hpoint => ?_) (not_lt.mpr (Int.natCast_nonneg zeros))
    exact absurd ((isDigits_digits _).ne_point _ hpoint) (by decide)
  · rw [Decimal.positionalChars_negSucc]
    exact iff_of_true (List.mem_append_right _ List.mem_cons_self) (Int.negSucc_lt_zero n)

theorem positionalChars_of_value_eq {d : Decimal} (hexponent : 0 ≤ d.exponent) {n : Nat}
    (h : d.value = n) : d.positionalChars = Decimal.digits n := by
  obtain ⟨coefficient, zeros | k⟩ := d
  · have hn : coefficient * 10 ^ zeros = n := by
      rw [Decimal.value, Int.ofNat_eq_natCast, zpow_natCast] at h
      exact_mod_cast h
    rw [← hn]
    rfl
  · exact absurd hexponent (not_le.mpr (Int.negSucc_lt_zero k))

theorem getLast?_digits {n : Nat} (h : n % 10 ≠ 0) : (Decimal.digits n).getLast? ≠ some '0' := by
  intro hlast
  obtain ⟨cs, hcs⟩ := List.getLast?_eq_some_iff.mp hlast
  have hvalue : Nat.ofDigitChars 10 (Decimal.digits n) 0 = n := Nat.ofDigitChars_ten_toDigits
  rw [hcs, Nat.ofDigitChars_append, Nat.ofDigitChars_cons, Nat.ofDigitChars_nil] at hvalue
  apply h
  rw [← hvalue]
  exact Nat.mul_mod_right 10 _

theorem getLast?_positionalChars {d : Decimal} (hexponent : d.exponent < 0)
    (hcoefficient : d.coefficient % 10 ≠ 0) : d.positionalChars.getLast? ≠ some '0' := by
  obtain ⟨coefficient, zeros | n⟩ := d
  · exact absurd hexponent (not_lt.mpr (Int.natCast_nonneg zeros))
  · have hrest : coefficient % 10 ^ (n + 1) % 10 ≠ 0 := by
      rwa [Nat.mod_mod_of_dvd _ (dvd_pow_self 10 (Nat.succ_ne_zero n))]
    have hne := (isDigits_digits (coefficient % 10 ^ (n + 1))).1
    rw [Decimal.positionalChars_negSucc, Decimal.padded, ← List.cons_append, ← List.append_assoc,
      List.getLast?_append_of_ne_nil _ hne]
    exact getLast?_digits hrest

/-! ## Reading -/

/-- The text is read as the double: as the one nearest to the number, and as a negative one just after a
minus. -/
def ReadsAs (s : String) (x : Float) : Prop :=
  ∃ cs v, s.toList = (if isNegative x then '-' :: cs else cs) ∧ IsDecimal cs v ∧
    IsNearest (signed (isNegative x) v) x

theorem exists_magnitude_of_isFinite (h : isFinite x = true) :
    ∃ mantissa scale, magnitude x = .finite mantissa scale := by
  rw [isFinite] at h
  split at h
  · next mantissa scale hx => exact ⟨mantissa, scale, hx⟩
  · exact absurd h Bool.false_ne_true

theorem toList_text_finite {mantissa scale : Nat} (hx : magnitude x = .finite mantissa scale) :
    (text x).toList = if isNegative x then '-' :: (shortest .upper mantissa scale).positionalChars
      else (shortest .upper mantissa scale).positionalChars := by
  have hnan : isNaN x = false := by rw [isNaN, hx]; rfl
  rw [toList_text hnan, hx, sign]
  split_ifs <;> rfl

/-- **The text of a finite double is read as this double, and as no other.** -/
theorem readsAs_text_iff (h : isFinite x = true) : ReadsAs (text x) y ↔ y = x := by
  obtain ⟨mantissa, scale, hx⟩ := exists_magnitude_of_isFinite h
  have hdecimal := isDecimal_positionalChars (shortest .upper mantissa scale)
  have hnonneg : 0 ≤ (shortest .upper mantissa scale).value := by
    rw [Decimal.value]
    positivity
  have hnearest := isNearest_of_rounds hnonneg (rounds_shortest .upper (of_magnitude_eq_finite hx).1) hx
  constructor
  · rintro ⟨cs, v, hchars, hcs, hy⟩
    rw [toList_text_finite hx] at hchars
    have hsplit : isNegative y = isNegative x ∧
        (shortest .upper mantissa scale).positionalChars = cs := by
      cases hsx : isNegative x <;> cases hsy : isNegative y <;> rw [hsx, hsy] at hchars
      · exact ⟨rfl, hchars⟩
      · exact absurd hchars (hdecimal.ne_cons_minus _)
      · exact absurd hchars.symm (hcs.ne_cons_minus _)
      · exact ⟨rfl, (List.cons.inj hchars).2⟩
    obtain ⟨hsign, rfl⟩ := hsplit
    obtain rfl := hcs.read_eq.symm.trans hdecimal.read_eq
    rw [hsign] at hy
    exact hy.eq hnearest hsign
  · rintro rfl
    exact ⟨_, _, toList_text_finite hx, hdecimal, hnearest⟩

/-! ## Form -/

section Form

variable {mantissa scale : Nat} (hx : magnitude x = .finite mantissa scale)
include hx

theorem abs_value : |value x| = (Magnitude.finite mantissa scale).value := by
  have hnonneg : 0 ≤ (Magnitude.finite mantissa scale).value := by
    rw [Magnitude.value]
    positivity
  rw [value, hx, signed]
  split_ifs
  · rw [abs_neg, abs_of_nonneg hnonneg]
  · exact abs_of_nonneg hnonneg

theorem exists_value_eq_intCast_iff :
    (∃ n : ℤ, value x = n) ↔ ∃ n : Nat, (Magnitude.finite mantissa scale).value = n := by
  rw [← abs_value hx]
  constructor
  · rintro ⟨n, hn⟩
    exact ⟨n.natAbs, by rw [hn, Nat.cast_natAbs, Int.cast_abs]⟩
  · rintro ⟨n, hn⟩
    rcases abs_choice (value x) with h | h
    · exact ⟨n, by rw [← h, hn, Int.cast_natCast]⟩
    · exact ⟨-n, by rw [Int.cast_neg, Int.cast_natCast, ← hn, h, neg_neg]⟩

theorem point_mem_text_iff :
    '.' ∈ (text x).toList ↔ (shortest .upper mantissa scale).exponent < 0 := by
  rw [toList_text_finite hx, ← point_mem_positionalChars_iff]
  split_ifs
  · rw [List.mem_cons, or_iff_right (by decide)]
  · rfl

theorem getLast?_text :
    (text x).toList.getLast? = (shortest .upper mantissa scale).positionalChars.getLast? := by
  obtain ⟨c, cs, hcs, -⟩ := (shortest .upper mantissa scale).exists_positionalChars_eq_cons
  rw [toList_text_finite hx]
  split_ifs
  · exact List.getLast?_cons_of_ne_nil (hcs ▸ List.cons_ne_nil c cs)
  · rfl

end Form

variable (h : isFinite x = true)
include h

theorem mem_text {c : Char} (hc : c ∈ (text x).toList) : c.isDigit = true ∨ c = '-' ∨ c = '.' := by
  obtain ⟨mantissa, scale, hx⟩ := exists_magnitude_of_isFinite h
  have hdecimal := isDecimal_positionalChars (shortest .upper mantissa scale)
  rw [toList_text_finite hx] at hc
  split_ifs at hc
  · rcases List.mem_cons.mp hc with rfl | hc
    · exact .inr (.inl rfl)
    · exact (hdecimal.mem hc).imp_right .inr
  · exact (hdecimal.mem hc).imp_right .inr

/-- **Just the whole numbers are written without a point.** -/
theorem point_not_mem_text_iff : '.' ∉ (text x).toList ↔ ∃ n : ℤ, value x = n := by
  obtain ⟨mantissa, scale, hx⟩ := exists_magnitude_of_isFinite h
  rw [point_mem_text_iff hx, not_lt, exists_value_eq_intCast_iff hx,
    exponent_shortest_nonneg_iff (of_magnitude_eq_finite hx).1]

/-- **Behind a point stand digits, and the last of them is not 0.** -/
theorem ne_zero_of_text_eq {whole behind : List Char} (hchars : (text x).toList = whole ++ '.' :: behind) :
    behind ≠ [] ∧ behind.getLast? ≠ some '0' := by
  obtain ⟨mantissa, scale, hx⟩ := exists_magnitude_of_isFinite h
  have hpoint : '.' ∈ (text x).toList := by
    rw [hchars]
    exact List.mem_append_right _ List.mem_cons_self
  have hexponent := (point_mem_text_iff hx).mp hpoint
  have hne : mantissa ≠ 0 := by
    rintro rfl
    rw [shortest, if_pos rfl] at hexponent
    exact absurd hexponent (lt_irrefl 0)
  have hlast := getLast?_positionalChars hexponent (coefficient_shortest hne)
  have hdigit := (isDecimal_positionalChars (shortest .upper mantissa scale)).getLast?_ne_point
  rw [← getLast?_text hx, hchars, List.getLast?_append_of_ne_nil _ (List.cons_ne_nil _ _)] at hlast hdigit
  by_cases hnil : behind = []
  · rw [hnil] at hdigit
    exact absurd rfl hdigit
  · rw [List.getLast?_cons_of_ne_nil hnil] at hlast
    exact ⟨hnil, hlast⟩

/-- **Whole numbers below `10 ^ 15` are written in all their digits.** -/
theorem text_of_value_eq {n : Nat} (hn : n < 10 ^ 15) (hvalue : |value x| = n) :
    (text x).toList = (sign x).toList ++ Decimal.digits n := by
  obtain ⟨mantissa, scale, hx⟩ := exists_magnitude_of_isFinite h
  have hmagnitude := (of_magnitude_eq_finite hx).1
  rw [abs_value hx] at hvalue
  have hscale : scale ≤ 1075 := by
    refine scale_le_of_value_lt hmagnitude ?_
    rw [hvalue]
    exact Nat.cast_lt.mpr (hn.trans (by decide))
  have hexponent : 0 ≤ (shortest .upper mantissa scale).exponent := exponent_shortest_nonneg hvalue
  have hdigits := positionalChars_of_value_eq hexponent
    ((value_shortest_eq hmagnitude hscale hexponent).trans hvalue)
  rw [toList_text_finite hx, hdigits, sign]
  split_ifs <;> rfl

end SurveyTables.Number

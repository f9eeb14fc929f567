import SurveyTables.Number.Decimal
import Mathlib.Data.List.TakeWhile
import Mathlib.Data.Nat.Digits.Defs
import Mathlib.Algebra.Order.Field.Rat
import Mathlib.Tactic.Positivity

/-!
# Decimals in writing

A decimal that is written out is read as the number it is.

* `Decimal.value`: the number;
* `Decimal.read`: the number that digits with perhaps a point among them are;
* `length_padded`, `ofDigitChars_padded`: digits that are filled up with zeros;
* **`read_positionalChars`**: a decimal is read as it is written out.
-/

namespace SurveyTables.Number.Decimal

/-- The number that a decimal is. -/
def value (d : Decimal) : ℚ :=
  d.coefficient * 10 ^ d.exponent

/-- The number that digits are, perhaps with a point among them. -/
def read (cs : List Char) : ℚ :=
  let behind := (cs.dropWhile (· != '.')).tail
  Nat.ofDigitChars 10 (cs.takeWhile (· != '.') ++ behind) 0 / 10 ^ behind.length

/-! ## Digits -/

theorem isDigit_of_mem_digits {n : Nat} {c : Char} (h : c ∈ digits n) : c.isDigit = true :=
  Nat.isDigit_of_mem_toDigits (by decide) (by decide) h

theorem ne_point_of_mem_digits {n : Nat} {c : Char} (h : c ∈ digits n) : (c != '.') = true := by
  rw [bne_iff_ne]
  rintro rfl
  exact absurd (isDigit_of_mem_digits h) (by decide)

theorem length_digits_le {width n : Nat} (h : n < 10 ^ (width + 1)) :
    (digits n).length ≤ width + 1 :=
  (Nat.length_toDigits_le_iff (by decide) (Nat.succ_pos width)).mpr h

theorem length_padded {width n : Nat} (h : n < 10 ^ (width + 1)) :
    (padded (width + 1) n).length = width + 1 := by
  have hlength := length_digits_le h
  rw [padded, List.length_append, List.length_replicate]
  omega

theorem ofDigitChars_replicate (zeros : Nat) (cs : List Char) :
    Nat.ofDigitChars 10 (List.replicate zeros '0' ++ cs) 0 = Nat.ofDigitChars 10 cs 0 := by
  induction zeros with
  | zero => rfl
  | succ zeros ih =>
    rw [List.replicate_succ, List.cons_append, Nat.ofDigitChars_cons]
    exact ih

theorem ofDigitChars_padded (width n : Nat) : Nat.ofDigitChars 10 (padded width n) 0 = n := by
  rw [padded, ofDigitChars_replicate]
  exact Nat.ofDigitChars_ten_toDigits

/-! ## Reading -/

theorem read_whole {cs : List Char} (h : ∀ c ∈ cs, (c != '.') = true) :
    read cs = Nat.ofDigitChars 10 cs 0 := by
  have htake : cs.takeWhile (· != '.') = cs := List.takeWhile_eq_self_iff.mpr h
  have hdrop : cs.dropWhile (· != '.') = [] := List.dropWhile_eq_nil_iff.mpr h
  rw [read, htake, hdrop]
  simp only [List.tail_nil, List.append_nil, List.length_nil, pow_zero, div_one]

theorem read_pointed {whole : List Char} (h : ∀ c ∈ whole, (c != '.') = true)
    (behind : List Char) : read (whole ++ '.' :: behind) =
      (10 ^ behind.length * Nat.ofDigitChars 10 whole 0 + Nat.ofDigitChars 10 behind 0 : Nat) /
        10 ^ behind.length := by
  have htake : (whole ++ '.' :: behind).takeWhile (· != '.') = whole := by
    rw [List.takeWhile_append_of_pos h]
    simp
  have hdrop : (whole ++ '.' :: behind).dropWhile (· != '.') = '.' :: behind := by
    rw [List.dropWhile_append_of_pos h]
    simp
  rw [read, htake, hdrop, List.tail_cons, Nat.ofDigitChars_append,
    Nat.ofDigitChars_eq_ofDigitChars_zero]

theorem read_digits (n : Nat) : read (digits n) = n := by
  rw [read_whole fun c hc => ne_point_of_mem_digits hc]
  exact congrArg Nat.cast Nat.ofDigitChars_ten_toDigits

theorem read_digits_append (n : Nat) (behind : List Char) :
    read (digits n ++ '.' :: behind) =
      (10 ^ behind.length * n + Nat.ofDigitChars 10 behind 0 : Nat) / 10 ^ behind.length := by
  rw [read_pointed fun c hc => ne_point_of_mem_digits hc,
    show Nat.ofDigitChars 10 (digits n) 0 = n from Nat.ofDigitChars_ten_toDigits]

theorem positionalChars_ofNat (coefficient zeros : Nat) :
    positionalChars { coefficient, exponent := .ofNat zeros } =
      digits (coefficient * Nat.pow 10 zeros) := rfl

theorem positionalChars_negSucc (coefficient n : Nat) :
    positionalChars { coefficient, exponent := .negSucc n } =
      digits (coefficient / 10 ^ (n + 1)) ++
        '.' :: padded (n + 1) (coefficient % 10 ^ (n + 1)) := by
  have hlength : (padded (n + 1) (coefficient % 10 ^ (n + 1))).length = n + 1 :=
    length_padded (Nat.mod_lt _ (by positivity))
  unfold positionalChars places wholePart
  dsimp only
  split
  · next hnil =>
    rw [show Nat.pow 10 (n + 1) = 10 ^ (n + 1) from rfl] at hnil
    rw [hnil] at hlength
    exact nomatch hlength
  · rfl

/-- **A decimal is read as it is written out.** -/
theorem read_positionalChars (d : Decimal) : read d.positionalChars = d.value := by
  obtain ⟨coefficient, zeros | n⟩ := d
  · rw [positionalChars_ofNat, read_digits, value]
    simp
  · have hlength : (padded (n + 1) (coefficient % 10 ^ (n + 1))).length = n + 1 :=
      length_padded (Nat.mod_lt _ (by positivity))
    rw [positionalChars_negSucc, read_digits_append, hlength, ofDigitChars_padded,
      Nat.div_add_mod, value, Int.negSucc_eq, zpow_neg, ← div_eq_mul_inv]
    norm_cast

theorem exists_positionalChars_eq_cons (d : Decimal) :
    ∃ c cs, d.positionalChars = c :: cs ∧ c.isDigit = true := by
  obtain ⟨whole, behind, hchars⟩ : ∃ whole behind, d.positionalChars = digits whole ++ behind := by
    obtain ⟨coefficient, zeros | n⟩ := d
    · exact ⟨_, [], (List.append_nil _).symm⟩
    · exact ⟨_, _, positionalChars_negSucc coefficient n⟩
  obtain ⟨c, cs, hdigits⟩ := List.exists_cons_of_ne_nil (Nat.toDigits_ne_nil (b := 10) (n := whole))
  have hc : c ∈ digits whole := by
    rw [digits, hdigits]
    exact List.mem_cons_self
  exact ⟨c, cs ++ behind, by rw [hchars, digits, hdigits, List.cons_append],
    isDigit_of_mem_digits hc⟩

end SurveyTables.Number.Decimal

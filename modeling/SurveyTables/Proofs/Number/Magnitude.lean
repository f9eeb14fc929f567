import Mathlib
import SurveyTables.Number.Magnitude

/-!
# Doubles by sign and magnitude

A double that is not NaN is known by its sign and its magnitude, and the magnitudes of finite doubles
have one form each.

* `IsMagnitude`, `of_magnitude_eq_finite`: the form of the magnitude of a finite double, and its bits;
* **`eq_of_magnitude_eq`**: doubles with the same sign and magnitude are the same.
-/

namespace SurveyTables.Number

/-- The pairs of a mantissa and a scale that make up the magnitudes of finite doubles: the mantissa
has its leading bit unless the scale is the lowest. -/
structure IsMagnitude (mantissa scale : Nat) : Prop where
  scale_pos : 1 ≤ scale
  scale_le : scale ≤ 2046
  mantissa_lt : mantissa < 2 * leadingBit
  leadingBit_le : 1 < scale → leadingBit ≤ mantissa

variable {x y : Float} {mantissa scale : Nat}

/-! ## Bits -/

theorem magnitude_eq (x : Float) : magnitude x =
    if x.toBits.toNat % signBit / leadingBit = 0 then
      .finite (x.toBits.toNat % signBit % leadingBit) 1
    else if x.toBits.toNat % signBit / leadingBit = 2047 then
      if x.toBits.toNat % signBit % leadingBit = 0 then .infinite else .nan
    else
      .finite (leadingBit + x.toBits.toNat % signBit % leadingBit)
        (x.toBits.toNat % signBit / leadingBit) := by
  unfold magnitude
  dsimp only
  split
  · next h => rw [if_pos h]
  · next h => rw [h]; rfl
  · next h0 h1 => rw [if_neg h0, if_neg h1]

theorem of_magnitude_eq_finite (h : magnitude x = .finite mantissa scale) :
    IsMagnitude mantissa scale ∧
      x.toBits.toNat % signBit = (scale - 1) * leadingBit + mantissa := by
  have hdiv := Nat.div_add_mod (x.toBits.toNat % signBit) leadingBit
  have hlt := Nat.mod_lt x.toBits.toNat (show signBit > 0 by decide)
  have hfraction := Nat.mod_lt (x.toBits.toNat % signBit) (show leadingBit > 0 by decide)
  rw [magnitude_eq] at h
  generalize x.toBits.toNat % signBit = bits at *
  generalize bits % leadingBit = fraction at *
  generalize bits / leadingBit = exponent at *
  have hleading : leadingBit = 0x10000000000000 := rfl
  simp only [signBit, leadingBit] at hlt hfraction hdiv h ⊢
  split at h
  · next h0 =>
    obtain ⟨rfl, rfl⟩ := Magnitude.finite.inj h
    exact ⟨⟨by omega, by omega, by omega, by omega⟩, by omega⟩
  · split at h
    · split at h <;> exact nomatch h
    · obtain ⟨rfl, rfl⟩ := Magnitude.finite.inj h
      exact ⟨⟨by omega, by omega, by omega, by omega⟩, by omega⟩

theorem of_magnitude_eq_infinite (h : magnitude x = .infinite) :
    x.toBits.toNat % signBit = 2047 * leadingBit := by
  have hdiv := Nat.div_add_mod (x.toBits.toNat % signBit) leadingBit
  rw [magnitude_eq] at h
  split at h
  · exact nomatch h
  · split at h
    · next h1 =>
      split at h
      · next h2 => rw [← hdiv, h1, h2, Nat.add_zero, Nat.mul_comm]
      · exact nomatch h
    · exact nomatch h

theorem magnitude_ne_nan (h : isNaN x = false) : magnitude x ≠ .nan := by
  intro hx
  rw [isNaN, hx] at h
  exact absurd h (by decide)

/-- **Doubles with the same sign and magnitude are the same**, unless they are NaN. -/
theorem eq_of_magnitude_eq (hsign : isNegative x = isNegative y)
    (hmagnitude : magnitude x = magnitude y) (hnan : isNaN x = false) : x = y := by
  have hbits : x.toBits.toNat % signBit = y.toBits.toNat % signBit := by
    cases hx : magnitude x with
    | nan => exact absurd hx (magnitude_ne_nan hnan)
    | infinite =>
      rw [of_magnitude_eq_infinite hx, of_magnitude_eq_infinite (hmagnitude ▸ hx)]
    | finite mantissa scale =>
      rw [(of_magnitude_eq_finite hx).2, (of_magnitude_eq_finite (hmagnitude ▸ hx)).2]
  have hx := x.toBits.toNat_lt
  have hy := y.toBits.toNat_lt
  rw [isNegative, isNegative, decide_eq_decide] at hsign
  apply Float.toBits_inj.mp
  apply UInt64.toNat_inj.mp
  unfold signBit at *
  omega

end SurveyTables.Number

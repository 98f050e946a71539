import DspCheck.Proofs.Number.Rounding
import DspCheck.Proofs.Text.Run
import Mathlib.Algebra.Order.Field.Power

/-!
# Rounding of decimals

The value of a decimal is `digits * 10 ^ exponent`.  Decimals are rounded to the nearest number of
the format (`isNearest_ofDecimal`).  Those of which the number of digits and the exponent show that
they are too large for the format, or nearer to zero than to the least number, are not even made
fractions of; the bounds for that are wide enough.
-/

namespace DspCheck

namespace Text

theorem lt_pow_length_decimal (n : Nat) : n < 10 ^ (decimal n).length :=
  (Nat.length_toDigits_le_iff (by decide) Nat.length_toDigits_pos).1 (Nat.le_refl _)

theorem pow_le_of_length_decimal {n k : Nat} (hn : n ≠ 0) (hk : (decimal n).length = k + 1) :
    10 ^ k ≤ n := by
  rcases Nat.eq_zero_or_pos k with rfl | hpos
  · exact Nat.one_le_iff_ne_zero.2 hn
  · refine Nat.le_of_not_lt fun hlt => ?_
    have hle : (decimal n).length ≤ k := (Nat.length_toDigits_le_iff (by decide) hpos).2 hlt
    omega

end Text

/-- The number that a decimal stands for. -/
def Decimal.value (d : Decimal) : ℚ :=
  d.digits * 10 ^ d.exponent

namespace Binary64

variable {d : Decimal}

theorem value_eq_ratio (d : Decimal) : d.value = (ratioOf d).1 / (ratioOf d).2 := by
  have hpow : (10 : ℚ) ^ d.exponent.toNat / 10 ^ (-d.exponent).toNat = 10 ^ d.exponent := by
    rw [← zpow_natCast, ← zpow_natCast, ← zpow_sub₀ (by decide)]
    congr 1
    omega
  rw [Decimal.value, ratioOf]
  simp only [Nat.pow_eq]
  push_cast
  rw [mul_div_assoc, hpow]

theorem ratioOf_snd_pos (d : Decimal) : 0 < (ratioOf d).2 :=
  Nat.pow_pos (by decide)

theorem value_lt (d : Decimal) :
    d.value < 10 ^ (d.exponent + (Text.decimal d.digits).length) := by
  have hlt : (d.digits : ℚ) < 10 ^ (Text.decimal d.digits).length := by
    exact_mod_cast Text.lt_pow_length_decimal d.digits
  rw [Decimal.value, zpow_add₀ (by decide), zpow_natCast, mul_comm]
  exact mul_lt_mul_of_pos_left hlt (by positivity)

theorem le_value (hd : d.digits ≠ 0) :
    10 ^ (d.exponent + (Text.decimal d.digits).length - 1) ≤ d.value := by
  obtain ⟨k, hk⟩ := Nat.exists_eq_succ_of_ne_zero
    (Nat.ne_of_gt (List.length_pos_iff.2 (Text.decimal_ne_nil d.digits)))
  have hle : (10 : ℚ) ^ k ≤ d.digits := by
    exact_mod_cast Text.pow_le_of_length_decimal hd hk
  have hexponent : d.exponent + (Text.decimal d.digits).length - 1 = d.exponent + k := by omega
  rw [hexponent, Decimal.value, zpow_add₀ (by decide), zpow_natCast, mul_comm]
  exact mul_le_mul_of_nonneg_right hle (by positivity)

/-! ## Too large and too small -/

theorem tooLarge_le : tooLarge ≤ 10 ^ 310 * 2 ^ unitBits := by
  decide +kernel

theorem two_mul_pow_unitBits_le : 2 * 2 ^ unitBits ≤ 10 ^ 331 := by
  decide +kernel

/-- Fractions from `10 ^ 310` on are rounded to infinity. -/
theorem isNearest_infinite {n m : Nat} (hm : 0 < m) (hle : (10 : ℚ) ^ 310 ≤ n / m) :
    IsNearest (n / m) infinite := by
  obtain ⟨u, hu, -⟩ := isNearest_ofRatio n hm
  refine ⟨u, hu, ?_⟩
  have htooLarge : IsRounded (tooLarge : ℚ) tooLarge := by
    unfold tooLarge
    exact .of_eq (isRepresentable_two_pow overflowBits)
  have hbound : (tooLarge : ℚ) ≤ n / m * 2 ^ unitBits := by
    calc (tooLarge : ℚ)
      _ ≤ 10 ^ 310 * 2 ^ unitBits := by exact_mod_cast tooLarge_le
      _ ≤ n / m * 2 ^ unitBits := mul_le_mul_of_nonneg_right hle (by positivity)
  rw [ofUnits, if_neg (Nat.not_lt.2 (htooLarge.mono hu hbound))]

/-- Fractions up to half a unit are rounded to zero. -/
theorem isNearest_zero {x : ℚ} (hx : 0 ≤ x) (hle : x * (2 * 2 ^ unitBits) ≤ 1) :
    IsNearest x (finite 0) := by
  have hhalf : 2 * |x * 2 ^ unitBits - (0 : Nat) * 2 ^ 0| ≤ (2 : ℚ) ^ 0 := by
    rw [Nat.cast_zero, zero_mul, sub_zero, pow_zero, abs_of_nonneg (by positivity)]
    linarith
  have hlt : x * 2 ^ unitBits < (2 : ℚ) ^ 53 * 2 ^ 0 := by
    linarith
  have hunits := IsRounded.of_nearest_multiple (Or.inl rfl) hlt hhalf fun _ => Even.zero
  rw [zero_mul] at hunits
  have hfinite : 0 < tooLarge := zero_mul (2 ^ unitBits) ▸ lt_tooLarge (Nat.zero_le _)
  exact ⟨0, hunits, by rw [ofUnits, if_pos hfinite]⟩

theorem pow_le_value (h : d.digits ≠ 0)
    (hlarge : greatestExponent < d.exponent + (Text.decimal d.digits).length) :
    (10 : ℚ) ^ 310 ≤ d.value := by
  rw [greatestExponent] at hlarge
  calc (10 : ℚ) ^ 310
    _ = 10 ^ (310 : ℤ) := (zpow_natCast 10 310).symm
    _ ≤ 10 ^ (d.exponent + (Text.decimal d.digits).length - 1) :=
      zpow_le_zpow_right₀ (by decide) (by omega)
    _ ≤ d.value := le_value h

theorem value_mul_le (hsmall : d.exponent + (Text.decimal d.digits).length < leastExponent) :
    d.value * (2 * 2 ^ unitBits) ≤ 1 := by
  rw [leastExponent] at hsmall
  have hvalue : d.value ≤ 10 ^ (-(331 : Nat) : ℤ) :=
    (value_lt d).le.trans (zpow_le_zpow_right₀ (by decide) (by omega))
  rw [zpow_neg, zpow_natCast] at hvalue
  have hcast : ∀ k, 2 * 2 ^ unitBits ≤ 10 ^ k → (2 * 2 ^ unitBits : ℚ) ≤ 10 ^ k :=
    fun k hk => by exact_mod_cast hk
  have hpos : (0 : ℚ) < 10 ^ 331 := pow_pos (by decide) 331
  calc d.value * (2 * 2 ^ unitBits)
    _ ≤ (10 ^ 331)⁻¹ * 10 ^ 331 :=
      mul_le_mul hvalue (hcast 331 two_mul_pow_unitBits_le) (by positivity) (inv_nonneg.2 hpos.le)
    _ = 1 := inv_mul_cancel₀ hpos.ne'

/-- Decimals are rounded to the nearest number. -/
theorem isNearest_ofDecimal (d : Decimal) : IsNearest d.value (ofDecimal d) := by
  have hnonneg : 0 ≤ d.value := by
    rw [Decimal.value]
    positivity
  rw [ofDecimal]
  split_ifs with hzero hlarge hsmall
  · have hvalue : d.value = 0 := by rw [Decimal.value, hzero, Nat.cast_zero, zero_mul]
    exact isNearest_zero hnonneg (by rw [hvalue, zero_mul]; exact zero_le_one)
  · have hle := pow_le_value hzero hlarge
    rw [value_eq_ratio] at hle ⊢
    exact isNearest_infinite (ratioOf_snd_pos d) hle
  · exact isNearest_zero hnonneg (value_mul_le hsmall)
  · rw [value_eq_ratio]
    exact isNearest_ofRatio _ (ratioOf_snd_pos d)

end Binary64
end DspCheck

import Mathlib.Algebra.Order.Field.Rat
import Mathlib.Tactic.FieldSimp
import Mathlib.Tactic.Linarith
import Mathlib.Tactic.NormNum
import Mathlib.Tactic.Positivity
import Mathlib.Tactic.Ring
import OutcomeMarket.Decimal.Basic

/-! Decimals as rational numbers. The order of decimals, their extremes and their signs are those of the
rational values, so that facts about the order need no scales. -/
namespace OutcomeMarket
namespace Decimal

theorem toRat_eq_div (a : Decimal) : a.toRat = a.signed / 10 ^ a.scale := by
  unfold toRat
  rw [Rat.mkRat_eq_div]
  push_cast
  rfl

theorem cross_eq_toRat_mul (a b : Decimal) :
    (a.cross b : ℚ) = a.toRat * (10 ^ a.scale * 10 ^ b.scale) := by
  have h : (10 : ℚ) ^ a.scale ≠ 0 := by positivity
  rw [toRat_eq_div]
  unfold cross
  push_cast
  field_simp

/-- Cross products compare values. -/
theorem le_iff_toRat {a b : Decimal} : a ≤ b ↔ a.toRat ≤ b.toRat := by
  have hp : (0 : ℚ) < 10 ^ a.scale * 10 ^ b.scale := by positivity
  have ha := cross_eq_toRat_mul a b
  have hb := cross_eq_toRat_mul b a
  rw [mul_comm (10 ^ b.scale)] at hb
  change a.cross b ≤ b.cross a ↔ _
  rw [← Int.cast_le (R := ℚ), ha, hb]
  exact mul_le_mul_iff_of_pos_right hp

theorem lt_iff_toRat {a b : Decimal} : a < b ↔ a.toRat < b.toRat := by
  rw [← not_le, le_iff_toRat, Rat.not_le]

theorem sameValue_iff_toRat {a b : Decimal} : SameValue a b ↔ a.toRat = b.toRat := by
  rw [sameValue_iff_le_le, le_iff_toRat, le_iff_toRat]
  exact le_antisymm_iff.symm

@[simp] theorem toRat_lit (m s : ℕ) (hm : m.ble maxMantissa = true) (hs : s.ble maxScale = true) :
    (lit m s hm hs).toRat = m / 10 ^ s := by
  rw [toRat_eq_div]
  simp [signed]

@[simp] theorem toRat_zero : zero.toRat = 0 := by simp

@[simp] theorem toRat_one : one.toRat = 1 := by simp

theorem toRat_ofNat {n : ℕ} (h : n ≤ maxMantissa) : (ofNat n).toRat = n := by
  rw [toRat_eq_div]
  simp [signed, ofNat, h]

theorem cast_maxMantissa : (maxMantissa : ℚ) = 79228162514264337593543950335 := by norm_num

theorem natAbs_signed (a : Decimal) : a.signed.natAbs = a.mantissa := by
  unfold signed
  split <;> simp

theorem natAbs_signed_le (a : Decimal) : a.signed.natAbs ≤ maxMantissa :=
  (natAbs_signed a).trans_le a.mantissa_le

theorem isZero_iff_toRat {a : Decimal} : a.isZero = true ↔ a.toRat = 0 := by
  have h : a.mantissa = 0 ↔ a.signed = 0 := by
    rw [← natAbs_signed, Int.natAbs_eq_zero]
  rw [toRat_eq_div, div_eq_zero_iff]
  simp [isZero, h]

theorem signed_neg (a : Decimal) : a.neg.signed = -a.signed := by
  unfold neg
  split
  · rename_i h
    have h0 : a.mantissa = 0 := by simpa [isZero] using h
    simp [signed, h0]
  · cases h : a.negative <;> simp [signed, h]

@[simp] theorem toRat_neg (a : Decimal) : a.neg.toRat = -a.toRat := by
  have hs : a.neg.scale = a.scale := by
    unfold neg
    split <;> rfl
  rw [toRat_eq_div, toRat_eq_div, signed_neg, hs]
  push_cast
  ring

theorem toRat_max (a b : Decimal) : (a.max b).toRat = Max.max a.toRat b.toRat := by
  unfold max
  split
  · rename_i h
    exact (max_eq_right (lt_iff_toRat.1 h).le).symm
  · rename_i h
    exact (max_eq_left (le_iff_toRat.1 (not_lt.1 h))).symm

theorem toRat_min (a b : Decimal) : (a.min b).toRat = Min.min a.toRat b.toRat := by
  unfold min
  split
  · rename_i h
    exact (min_eq_right (lt_iff_toRat.1 h).le).symm
  · rename_i h
    exact (min_eq_left (le_iff_toRat.1 (not_lt.1 h))).symm

/-- The units of a decimal at a scale no coarser than its own. -/
theorem toRat_mul_pow {a : Decimal} {t : ℕ} (h : a.scale ≤ t) :
    a.toRat * 10 ^ t = ((a.signed * 10 ^ (t - a.scale) : ℤ) : ℚ) := by
  have hp : (10 : ℚ) ^ t = 10 ^ a.scale * 10 ^ (t - a.scale) := by
    rw [← pow_add, Nat.add_sub_cancel' h]
  have h0 : (10 : ℚ) ^ a.scale ≠ 0 := by positivity
  rw [toRat_eq_div, hp]
  push_cast
  field_simp

/-- Decimals less than a unit in the last place apart are equal. -/
theorem toRat_eq_of_abs_sub_lt {a b : Decimal} (h : |a.toRat - b.toRat| < 1 / 10 ^ maxScale) : a.toRat = b.toRat := by
  have hp : (0 : ℚ) < 10 ^ maxScale := by positivity
  have ha := toRat_mul_pow a.scale_le
  have hb := toRat_mul_pow b.scale_le
  rw [lt_div_iff₀ hp, ← abs_of_pos hp, ← abs_mul, sub_mul, ha, hb, ← Int.cast_sub, ← Int.cast_abs] at h
  have hunits : a.signed * 10 ^ (maxScale - a.scale) - b.signed * 10 ^ (maxScale - b.scale) = 0 :=
    Int.abs_lt_one_iff.1 (by exact_mod_cast h)
  rw [sub_eq_zero.1 hunits, ← hb] at ha
  exact mul_right_cancel₀ hp.ne' ha

/-- A decimal with digits beyond a scale has few units there. -/
theorem abs_toRat_mul_pow_le {a : Decimal} {t : ℕ} (h : t ≤ a.scale) :
    |a.toRat| * 10 ^ t ≤ maxMantissa := by
  have hp : (10 : ℚ) ^ t ≤ 10 ^ a.scale := pow_le_pow_right₀ (by norm_num) h
  have hm : |(a.signed : ℚ)| ≤ maxMantissa := by
    rw [← Int.cast_abs, Int.abs_eq_natAbs]
    exact_mod_cast natAbs_signed_le a
  have hs : (0 : ℚ) < 10 ^ a.scale := by positivity
  calc |a.toRat| * 10 ^ t ≤ |a.toRat| * 10 ^ a.scale := by gcongr
    _ = |(a.signed : ℚ)| := by
      rw [toRat_eq_div, abs_div, abs_of_pos hs, div_mul_cancel₀ _ hs.ne']
    _ ≤ maxMantissa := hm

end Decimal
end OutcomeMarket

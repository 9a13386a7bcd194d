import Mathlib.Algebra.Group.Int.Even
import OutcomeMarket.Proofs.Decimal.Value

/-! Rounding to decimals. A rational number goes to the finest unit at which its digits fit the mantissa,
and there to the nearest multiple, a half to the even one. It follows that rounding is monotone, that it
leaves decimals as they are, and that it is off by little: rounding once is all that the operations do
wrong, so bounds on their results are read off bounds on exact values. -/
namespace OutcomeMarket
namespace Decimal

/-- The integer nearest to a number, of two the even one. -/
structure Nearest (x : ℚ) (k : ℤ) : Prop where
  near : |k - x| ≤ 1 / 2
  even : |k - x| = 1 / 2 → Even k

namespace Nearest

theorem intCast (k : ℤ) : Nearest k k := ⟨by simp, by norm_num⟩

theorem neg {x : ℚ} {k : ℤ} (h : Nearest x k) : Nearest (-x) (-k) := by
  have he : |((-k : ℤ) : ℚ) - -x| = |k - x| := by
    rw [← abs_neg]
    push_cast
    ring_nf
  refine ⟨he.trans_le h.near, fun hh => (h.even (he.symm.trans hh)).neg⟩

theorem le_add {x : ℚ} {k : ℤ} (h : Nearest x k) : (k : ℚ) ≤ x + 1 / 2 := by
  linarith [le_abs_self ((k : ℚ) - x), h.near]

theorem sub_le {x : ℚ} {k : ℤ} (h : Nearest x k) : x - 1 / 2 ≤ k := by
  linarith [neg_abs_le ((k : ℚ) - x), h.near]

/-- An integer bound of a number bounds the nearest integer. -/
theorem le_of_le {x : ℚ} {k m : ℤ} (h : Nearest x k) (hx : x ≤ m) : k ≤ m := by
  by_contra hm
  have hk : (m : ℚ) + 1 ≤ k := by exact_mod_cast lt_of_not_ge hm
  linarith [h.le_add]

/-- No integer is nearer. -/
theorem no_nearer {x : ℚ} {k : ℤ} (h : Nearest x k) (m : ℤ) : |k - x| ≤ |m - x| := by
  obtain rfl | hne := eq_or_ne k m
  · exact le_rfl
  · have hone : (1 : ℚ) ≤ |(k : ℚ) - m| := by exact_mod_cast Int.one_le_abs (sub_ne_zero.2 hne)
    have htriangle := abs_sub_le (k : ℚ) x m
    rw [abs_sub_comm x m] at htriangle
    linarith [h.near]

/-- Two neighbours cannot both be nearest to one number: on a tie only one of them is even. -/
theorem mono {x y : ℚ} {k l : ℤ} (hx : Nearest x k) (hy : Nearest y l) (h : x ≤ y) : k ≤ l := by
  by_contra hlt
  have hk : (l : ℚ) + 1 ≤ k := by exact_mod_cast lt_of_not_ge hlt
  have hkx := hx.le_add
  have hly := hy.sub_le
  have hxy : x = y := by linarith
  have hkl : (k : ℚ) = l + 1 := by linarith
  have hx' : (k : ℚ) - x = 1 / 2 := by linarith
  have hy' : (l : ℚ) - y = -(1 / 2) := by linarith
  obtain ⟨a, ha⟩ := hx.even (by rw [hx']; norm_num)
  obtain ⟨b, hb⟩ := hy.even (by rw [hy']; norm_num)
  have : k = l + 1 := by exact_mod_cast hkl
  omega

end Nearest

/-- A number is rounded to `k` units of `10 ^ (-t)`: this is nearest, and no finer unit has room for the
digits. -/
structure RoundsAt (x : ℚ) (t : ℕ) (k : ℤ) : Prop where
  scale_le : t ≤ maxScale
  units_le : k.natAbs ≤ maxMantissa
  nearest : Nearest (x * 10 ^ t) k
  finest : (k : ℚ) = x * 10 ^ t ∨ t = maxScale ∨ (maxMantissa : ℚ) + 1 / 2 ≤ |x| * 10 ^ (t + 1)

/-- The decimal to which a number is rounded, in whatever form. -/
def Rounds (x : ℚ) (d : Decimal) : Prop := ∃ t k, RoundsAt x t k ∧ d.toRat = k / 10 ^ t

namespace RoundsAt

variable {x y : ℚ} {t u : ℕ} {k l : ℤ}

theorem neg (h : RoundsAt x t k) : RoundsAt (-x) t (-k) := by
  refine ⟨h.scale_le, by simpa using h.units_le, ?_, ?_⟩
  · simpa using h.nearest.neg
  · simpa using h.finest

theorem abs_units_le (h : RoundsAt x t k) : |(k : ℚ)| ≤ maxMantissa := by
  rw [← Int.cast_abs, Int.abs_eq_natAbs]
  exact_mod_cast h.units_le

/-- How far off the rounding is, in units. -/
theorem abs_div_sub (x : ℚ) (t : ℕ) (k : ℤ) : |(k : ℚ) / 10 ^ t - x| = |k - x * 10 ^ t| / 10 ^ t := by
  have hp : (0 : ℚ) < 10 ^ t := by positivity
  rw [← abs_of_pos hp, ← abs_div, abs_of_pos hp, sub_div, mul_div_cancel_right₀ _ hp.ne']

/-- Where the mantissa runs out, the units are nearly as many as it holds. -/
theorem le_natAbs_of_coarse (h : RoundsAt x t k)
    (hc : (maxMantissa : ℚ) + 1 / 2 ≤ |x| * 10 ^ (t + 1)) : maxMantissa ≤ 10 * k.natAbs := by
  have hp : (0 : ℚ) < 10 ^ t := by positivity
  have hx : |x| * 10 ^ t - 1 / 2 ≤ |(k : ℚ)| := by
    have ht := abs_sub_abs_le_abs_sub (x * 10 ^ t) (k : ℚ)
    rw [abs_mul, abs_of_pos hp, abs_sub_comm] at ht
    linarith [h.nearest.near]
  have hk : (2 * maxMantissa : ℚ) ≤ 20 * k.natAbs + 9 := by
    rw [← Int.cast_abs, Int.abs_eq_natAbs] at hx
    rw [cast_maxMantissa, pow_succ] at hc
    rw [Int.cast_natCast] at hx
    rw [cast_maxMantissa]
    linarith
  have hk' : 2 * maxMantissa ≤ 20 * k.natAbs + 9 := by exact_mod_cast hk
  unfold maxMantissa at *
  omega

/-- Where the mantissa runs out, the result has no room for one digit more either. -/
theorem coarse_units (h : RoundsAt x t k) (hc : (maxMantissa : ℚ) + 1 / 2 ≤ |x| * 10 ^ (t + 1)) :
    (maxMantissa : ℚ) + 1 / 2 ≤ |(k : ℚ)| * 10 := by
  have hk := h.le_natAbs_of_coarse hc
  -- the largest mantissa is not a multiple of ten
  have hmore : maxMantissa + 1 ≤ k.natAbs * 10 := by
    unfold maxMantissa at *
    omega
  have hunits : ((maxMantissa + 1 : ℕ) : ℚ) ≤ |(k : ℚ)| * 10 := by
    rw [← Int.cast_abs, Int.abs_eq_natAbs, Int.cast_natCast]
    exact_mod_cast hmore
  rw [Nat.cast_add, Nat.cast_one] at hunits
  rw [cast_maxMantissa] at *
  linarith

/-- No decimal is nearer that has no digits beyond those of the result. -/
theorem no_nearer (h : RoundsAt x t k) {e : Decimal} (hs : e.scale ≤ t) :
    |(k : ℚ) / 10 ^ t - x| ≤ |e.toRat - x| := by
  have hp : (0 : ℚ) < 10 ^ t := by positivity
  have hn := h.nearest.no_nearer (e.signed * 10 ^ (t - e.scale))
  rw [← toRat_mul_pow hs, ← sub_mul, abs_mul, abs_of_pos hp] at hn
  rwa [abs_div_sub, div_le_iff₀ hp]

/-- A decimal bound of a number bounds what it is rounded to. -/
theorem le_of_le (h : RoundsAt x t k) {e : Decimal} (hx : x ≤ e.toRat) : (k : ℚ) / 10 ^ t ≤ e.toRat := by
  have hp : (0 : ℚ) < 10 ^ t := by positivity
  rw [div_le_iff₀ hp]
  by_cases hs : e.scale ≤ t
  · -- the bound is a whole number of units
    rw [toRat_mul_pow hs]
    have hk := h.nearest.le_of_le (m := e.signed * 10 ^ (t - e.scale)) (by
      rw [← toRat_mul_pow hs]
      gcongr)
    exact_mod_cast hk
  · rcases h.finest with hex | hmax | hc
    · rw [hex]
      gcongr
    · have := e.scale_le
      omega
    · -- the bound has finer digits, so it is smaller in size than x, and x is negative
      have he := abs_toRat_mul_pow_le (a := e) (t := t + 1) (by omega)
      have hlt : |e.toRat| * 10 ^ (t + 1) < |x| * 10 ^ (t + 1) :=
        he.trans_lt ((lt_add_of_pos_right _ (by norm_num)).trans_le hc)
      replace hlt : |e.toRat| < |x| := lt_of_mul_lt_mul_right hlt (by positivity)
      have hneg : x < 0 := by
        by_contra h0
        rw [abs_of_nonneg (le_of_not_gt h0)] at hlt
        linarith [le_abs_self e.toRat]
      have hk0 : k ≤ 0 := h.nearest.le_of_le (by
        rw [Int.cast_zero]
        exact mul_nonpos_of_nonpos_of_nonneg hneg.le hp.le)
      have hk : (maxMantissa : ℤ) ≤ 10 * -k := by
        have := h.le_natAbs_of_coarse hc
        omega
      have hk' : (maxMantissa : ℚ) ≤ 10 * -k := by exact_mod_cast hk
      rw [pow_succ] at he
      have := mul_le_mul_of_nonneg_right (neg_abs_le e.toRat) hp.le
      linarith

/-- If the larger of two numbers is rounded to below the smaller, and the smaller is not exact, then the larger
does not get the finer unit. -/
theorem le_scale_of_lt (hx : RoundsAt x t k) (hy : RoundsAt y u l) (hk : (k : ℚ) ≠ x * 10 ^ t)
    (hl : (l : ℚ) / 10 ^ u < x) (h : x ≤ y) : u ≤ t := by
  by_contra htu
  have hu := hy.scale_le
  have hc : (maxMantissa : ℚ) + 1 / 2 ≤ |x| * 10 ^ (t + 1) := by
    rcases hx.finest with hex | hmax | hc
    · exact absurd hex hk
    · omega
    · exact hc
  have hpu : (0 : ℚ) < 10 ^ u := by positivity
  have hp : (10 : ℚ) ^ (t + 1) ≤ 10 ^ u := pow_le_pow_right₀ (by norm_num) (by omega)
  rw [div_lt_iff₀ hpu] at hl
  have hlm := hy.abs_units_le
  rw [cast_maxMantissa] at hc hlm
  rcases le_or_gt 0 x with h0 | h0
  · rw [abs_of_nonneg h0] at hc
    have h1 : x * 10 ^ (t + 1) ≤ x * 10 ^ u := by gcongr
    have h2 : x * 10 ^ u ≤ y * 10 ^ u := by gcongr
    -- y is a tie above the largest mantissa, which is odd
    have hl1 := hy.nearest.sub_le
    have hl2 := (le_abs_self (l : ℚ)).trans hlm
    have hl3 : (l : ℚ) = 79228162514264337593543950335 := by linarith
    have hl4 : |(l : ℚ) - y * 10 ^ u| = 1 / 2 := by
      rw [abs_of_nonpos (by linarith)]
      linarith
    obtain ⟨a, ha⟩ := hy.nearest.even hl4
    have hl5 : l = 79228162514264337593543950335 := by exact_mod_cast hl3
    omega
  · rw [abs_of_neg h0] at hc
    have h1 : -x * 10 ^ (t + 1) ≤ -x * 10 ^ u :=
      mul_le_mul_of_nonneg_left hp (by linarith)
    linarith [neg_abs_le (l : ℚ)]

end RoundsAt

namespace Rounds

variable {x y : ℚ} {d e : Decimal}

theorem le_of_le (h : Rounds x d) (hx : x ≤ e.toRat) : d.toRat ≤ e.toRat := by
  obtain ⟨t, k, hk, hd⟩ := h
  rw [hd]
  exact hk.le_of_le hx

theorem neg (h : Rounds x d) : Rounds (-x) d.neg := by
  obtain ⟨t, k, hk, hd⟩ := h
  refine ⟨t, -k, hk.neg, ?_⟩
  rw [toRat_neg, hd]
  push_cast
  ring

theorem le_of_ge (h : Rounds x d) (hx : e.toRat ≤ x) : e.toRat ≤ d.toRat := by
  have hn := h.neg.le_of_le (e := e.neg) (by
    rw [toRat_neg]
    linarith)
  rw [toRat_neg, toRat_neg] at hn
  linarith

theorem mono (hx : Rounds x d) (hy : Rounds y e) (h : x ≤ y) : d.toRat ≤ e.toRat := by
  by_contra hlt
  have hxe : e.toRat < x := lt_of_not_ge fun hh => hlt (hx.le_of_le hh)
  have hdy : y < d.toRat := lt_of_not_ge fun hh => hlt (hy.le_of_ge hh)
  obtain ⟨t, k, hk, hd⟩ := hx
  obtain ⟨u, l, hl, he⟩ := hy
  have hpt : (0 : ℚ) < 10 ^ t := by positivity
  have hpu : (0 : ℚ) < 10 ^ u := by positivity
  have hkx : (k : ℚ) ≠ x * 10 ^ t := by
    intro hh
    rw [hh, mul_div_cancel_right₀ _ hpt.ne'] at hd
    linarith
  have hly : (l : ℚ) ≠ y * 10 ^ u := by
    intro hh
    rw [hh, mul_div_cancel_right₀ _ hpu.ne'] at he
    linarith
  have hut : u ≤ t := hk.le_scale_of_lt hl hkx (he ▸ hxe) h
  have htu : t ≤ u := hl.neg.le_scale_of_lt hk.neg (by
    push_cast
    rw [neg_mul, Ne, neg_inj]
    exact hly) (by
    push_cast
    rw [neg_div, ← hd]
    linarith) (by linarith)
  obtain rfl := le_antisymm hut htu
  have hkl : (k : ℚ) ≤ l := by
    exact_mod_cast hk.nearest.mono hl.nearest (by gcongr)
  apply hlt
  rw [hd, he]
  gcongr

/-- Decimals are not changed by rounding. -/
theorem eq_toRat (h : Rounds e.toRat d) : d.toRat = e.toRat :=
  le_antisymm (h.le_of_le le_rfl) (h.le_of_ge le_rfl)

/-- The form of a decimal does not matter. -/
theorem congr (h : Rounds x d) (he : e.toRat = d.toRat) : Rounds x e := by
  obtain ⟨t, k, hk, hd⟩ := h
  exact ⟨t, k, hk, he.trans hd⟩

theorem nonneg (h : Rounds x d) (hx : 0 ≤ x) : 0 ≤ d.toRat := by
  simpa using h.le_of_ge (e := zero) (by simpa using hx)

/-- Rounding is off by half a unit in the last place, and the digits before it fill most of the mantissa. -/
theorem abs_sub_le_two_thirds (h : Rounds x d) : |d.toRat - x| ≤ 2 / 3 / 10 ^ 28 * Max.max 1 |d.toRat| := by
  obtain ⟨t, k, hk, hd⟩ := h
  have hp : (0 : ℚ) < 10 ^ t := by positivity
  rw [hd, RoundsAt.abs_div_sub, ← hd]
  rcases hk.finest with hex | hmax | hc
  · rw [hex, sub_self, abs_zero, zero_div]
    positivity
  · calc |(k : ℚ) - x * 10 ^ t| / 10 ^ t ≤ (2 / 3) / 10 ^ t := by
          gcongr
          linarith [hk.nearest.near]
      _ = 2 / 3 / 10 ^ 28 * 1 := by rw [hmax, mul_one]
      _ ≤ 2 / 3 / 10 ^ 28 * Max.max 1 |d.toRat| := by
          gcongr
          exact le_sup_left
  · have hk' : 3 * (10 : ℚ) ^ 28 ≤ 4 * |(k : ℚ)| := by
      have hn := hk.le_natAbs_of_coarse hc
      rw [← Int.cast_abs, Int.abs_eq_natAbs]
      unfold maxMantissa at hn
      have : 3 * 10 ^ 28 ≤ 4 * k.natAbs := by omega
      exact_mod_cast this
    calc |(k : ℚ) - x * 10 ^ t| / 10 ^ t ≤ (2 / 3 / 10 ^ 28 * |(k : ℚ)|) / 10 ^ t := by
          gcongr
          linarith [hk.nearest.near]
      _ = 2 / 3 / 10 ^ 28 * |d.toRat| := by rw [hd, abs_div, abs_of_pos hp, mul_div_assoc]
      _ ≤ 2 / 3 / 10 ^ 28 * Max.max 1 |d.toRat| := by
          gcongr
          exact le_sup_right

/-- The error of a rounding to a number of which a bound is known. -/
theorem abs_sub_le_of_le (h : Rounds x d) (h0 : 0 ≤ d.toRat) (hd : d.toRat ≤ y) :
    |d.toRat - x| ≤ 2 / 3 / 10 ^ 28 * Max.max 1 y := by
  refine h.abs_sub_le_two_thirds.trans ?_
  rw [abs_of_nonneg h0]
  gcongr

/-- Rounding is off by half a unit in the last place there is, or of the finest unit that has room for the digits. -/
theorem abs_sub_le_half_unit (h : Rounds x d) :
    |d.toRat - x| ≤ Max.max (1 / 2 / 10 ^ 28) (5 * |x| / maxMantissa) := by
  obtain ⟨t, k, hk, hd⟩ := h
  have hp : (0 : ℚ) < 10 ^ t := by positivity
  have hhalf : |(k : ℚ) - x * 10 ^ t| / 10 ^ t ≤ 1 / 2 / 10 ^ t := by
    gcongr
    exact hk.nearest.near
  rw [hd, RoundsAt.abs_div_sub]
  rcases hk.finest with hex | hmax | hc
  · rw [hex, sub_self, abs_zero, zero_div]
    positivity
  · rw [hmax] at hhalf ⊢
    exact hhalf.trans le_sup_left
  · refine (hhalf.trans ?_).trans le_sup_right
    rw [cast_maxMantissa] at *
    rw [div_le_div_iff₀ hp (by norm_num)]
    rw [pow_succ] at hc
    linarith

/-- However large the number is, rounding is not off by more than half of one. -/
theorem abs_sub_le_half (h : Rounds x d) : |d.toRat - x| ≤ 1 / 2 := by
  obtain ⟨t, k, hk, hd⟩ := h
  have hp : (1 : ℚ) ≤ 10 ^ t := one_le_pow₀ (by norm_num)
  rw [hd, RoundsAt.abs_div_sub]
  exact (div_le_self (abs_nonneg _) hp).trans hk.nearest.near

/-- Rounding is off by less than a unit in the twenty-eighth significant digit, or the last place. -/
theorem abs_sub_le (h : Rounds x d) : |d.toRat - x| ≤ 1 / 10 ^ 28 * Max.max 1 |d.toRat| := by
  refine h.abs_sub_le_two_thirds.trans ?_
  gcongr
  norm_num

end Rounds
end Decimal
end OutcomeMarket

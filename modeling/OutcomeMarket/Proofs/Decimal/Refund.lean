import OutcomeMarket.Proofs.Decimal.Range

/-! What is taken out of a number and partly put back. Both the difference and the new sum are rounded, so that
the number may come back a little larger; never, though, if less is put back than was taken out. -/
namespace OutcomeMarket
namespace Decimal

theorem Nearest.eq_of_intCast {m k : ℤ} (h : Nearest m k) : k = m :=
  le_antisymm (h.mono (.intCast m) le_rfl) ((Nearest.intCast m).mono h le_rfl)

theorem scale_le_of_lt {e : Decimal} {t : ℕ} (h : (maxMantissa : ℚ) < |e.toRat| * 10 ^ (t + 1)) : e.scale ≤ t := by
  by_contra hs
  exact absurd (abs_toRat_mul_pow_le (a := e) (t := t + 1) (by omega)) (by linarith)

namespace RoundsAt

variable {x : ℚ} {t u : ℕ} {k l : ℤ} {e : Decimal}

/-- A number whose digits do not fit at a unit is not rounded to that unit. -/
theorem scale_le_of_lt (h : RoundsAt x u l) (hx : (maxMantissa : ℚ) + 1 / 2 < x * 10 ^ (t + 1)) : u ≤ t := by
  by_contra hu
  have hp : (10 : ℚ) ^ (t + 1) ≤ 10 ^ u := pow_le_pow_right₀ (by norm_num) (by omega)
  have hpos : (0 : ℚ) < 10 ^ (t + 1) := by positivity
  have hl := h.nearest.sub_le
  have hlM := (le_abs_self (l : ℚ)).trans h.abs_units_le
  rw [cast_maxMantissa] at hx hlM
  have hx0 : 0 < x := pos_of_mul_pos_left (by linarith) hpos.le
  have hmono : x * 10 ^ (t + 1) ≤ x * 10 ^ u := by gcongr
  linarith

/-- A number that is above a decimal by less than half a unit of a place in which the decimal is written is
not rounded further up, not even to a coarser unit. -/
theorem le_of_lt_half_unit (h : RoundsAt x u l) (hs : e.scale ≤ t) (hut : u ≤ t) (he : e.toRat < x)
    (hx : x < e.toRat + 1 / 2 / 10 ^ t) : (l : ℚ) / 10 ^ u ≤ e.toRat := by
  have hpt : (0 : ℚ) < 10 ^ t := by positivity
  have hpu : (0 : ℚ) < 10 ^ u := by positivity
  have hunit : ∀ n ≤ t, x * 10 ^ n < e.toRat * 10 ^ n + 1 / 2 := by
    intro n hn
    have hn' : (10 : ℚ) ^ n ≤ 10 ^ t := pow_le_pow_right₀ (by norm_num) hn
    have hpn : (0 : ℚ) < 10 ^ n := by positivity
    calc x * 10 ^ n < (e.toRat + 1 / 2 / 10 ^ t) * 10 ^ n := by gcongr
      _ = e.toRat * 10 ^ n + 1 / 2 * (10 ^ n / 10 ^ t) := by ring
      _ ≤ e.toRat * 10 ^ n + 1 / 2 := by
        have : (10 : ℚ) ^ n / 10 ^ t ≤ 1 := (div_le_one₀ hpt).2 hn'
        linarith
  by_cases hsu : e.scale ≤ u
  · -- the decimal is a whole number of the units
    have hl : (l : ℚ) < (e.signed * 10 ^ (u - e.scale) : ℤ) + 1 := by
      rw [← toRat_mul_pow hsu]
      linarith [h.nearest.le_add, hunit u hut]
    have hl' : l ≤ e.signed * 10 ^ (u - e.scale) := by
      have : l < e.signed * 10 ^ (u - e.scale) + 1 := by exact_mod_cast hl
      omega
    rw [div_le_iff₀ hpu, toRat_mul_pow hsu]
    exact_mod_cast hl'
  · rcases h.finest with hex | hmax | hc
    · -- an exact result would be another whole number of the finer units
      have hxt : x * 10 ^ t = (l * 10 ^ (t - u) : ℤ) := by
        have hp : (10 : ℚ) ^ t = 10 ^ u * 10 ^ (t - u) := by rw [← pow_add, Nat.add_sub_cancel' hut]
        push_cast
        rw [hp, ← mul_assoc, ← hex]
      have hlow : e.toRat * 10 ^ t < x * 10 ^ t := by gcongr
      have hhigh := hunit t le_rfl
      rw [hxt, toRat_mul_pow hs] at hlow hhigh
      have hlow' : e.signed * 10 ^ (t - e.scale) < l * 10 ^ (t - u) := by exact_mod_cast hlow
      have hge : ((e.signed * 10 ^ (t - e.scale) : ℤ) : ℚ) + 1 ≤ (l * 10 ^ (t - u) : ℤ) := by exact_mod_cast hlow'
      linarith
    · have := e.scale_le
      omega
    · -- the digits of the decimal fit at the finer unit, so those of the number do
      have hfit := abs_toRat_mul_pow_le (a := e) (t := u + 1) (by omega)
      have hclose := hunit (u + 1) (by omega)
      have habs := mul_le_mul_of_nonneg_right (le_abs_self e.toRat) (by positivity : (0 : ℚ) ≤ 10 ^ (u + 1))
      rw [cast_maxMantissa] at hc hfit
      rcases le_or_gt 0 x with h0 | h0
      · rw [abs_of_nonneg h0] at hc
        linarith
      · have hneg : |x| ≤ |e.toRat| := by
          rw [abs_of_neg h0, abs_of_neg (he.trans h0)]
          linarith
        have := mul_le_mul_of_nonneg_right hneg (by positivity : (0 : ℚ) ≤ 10 ^ (u + 1))
        linarith

end RoundsAt

section Refund

variable {a b c d e p q w : Decimal}

/-- Less put back than taken out never makes more, however both results are rounded. -/
theorem refund_le_of_lt (h0 : zero ≤ b) (h : b ≤ a) (hc : c < b) (hd : a.sub b = .ok d) (he : d.add c = .ok e) :
    e ≤ a := by
  rw [zero_le_iff_toRat] at h0
  rw [lt_iff_toRat] at hc
  rw [le_iff_toRat] at h ⊢
  have hde := rounds_add he
  by_contra hlt
  have hsum : a.toRat < d.toRat + c.toRat := lt_of_not_ge fun hh => hlt (hde.le_of_le hh)
  obtain ⟨t, k, hk, hdk⟩ := rounds_sub hd
  obtain ⟨u, l, hl, hel⟩ := hde
  have hp : (0 : ℚ) < 10 ^ t := by positivity
  -- the difference is not exact
  have hne : (k : ℚ) ≠ (a.toRat - b.toRat) * 10 ^ t := by
    intro hex
    rw [hex, mul_div_cancel_right₀ _ hp.ne'] at hdk
    linarith
  have hcoarse : (maxMantissa : ℚ) + 1 / 2 ≤ |a.toRat - b.toRat| * 10 ^ (t + 1) := by
    rcases hk.finest with hex | hmax | hc
    · exact absurd hex hne
    · have hn := hk.nearest
      rw [hmax, sub_mul, toRat_mul_pow a.scale_le, toRat_mul_pow b.scale_le, ← Int.cast_sub] at hn
      rw [hmax, sub_mul, toRat_mul_pow a.scale_le, toRat_mul_pow b.scale_le, ← Int.cast_sub] at hne
      exact absurd (by rw [hn.eq_of_intCast]) hne
    · exact hc
  rw [abs_of_nonneg (by linarith)] at hcoarse
  have hle : (a.toRat - b.toRat) * 10 ^ (t + 1) ≤ a.toRat * 10 ^ (t + 1) := by
    gcongr
    linarith
  have hlt' : a.toRat * 10 ^ (t + 1) < (d.toRat + c.toRat) * 10 ^ (t + 1) := by gcongr
  have hs : a.scale ≤ t := scale_le_of_lt (by
    rw [abs_of_nonneg (h0.trans h)]
    exact (lt_add_of_pos_right _ (by norm_num)).trans_le (hcoarse.trans hle))
  have hut : u ≤ t := hl.scale_le_of_lt (hcoarse.trans_lt (hle.trans_lt hlt'))
  have hhalf : d.toRat ≤ a.toRat - b.toRat + 1 / 2 / 10 ^ t := by
    rw [hdk, div_le_iff₀ hp, add_mul, div_mul_cancel₀ _ hp.ne']
    exact hk.nearest.le_add
  apply hlt
  rw [hel]
  exact hl.le_of_lt_half_unit hs hut hsum (by linarith)

/-- A gain by one rounding, in terms of the number before it. -/
theorem le_of_gain {a z δ : ℚ} (h0 : 0 ≤ δ) (h1 : δ ≤ 1 / 10) (h : z ≤ a + δ * Max.max 1 (Max.max a z)) :
    z ≤ a + 10 / 9 * δ * Max.max 1 a := by
  have hA : 1 ≤ Max.max 1 a := le_sup_left
  have hA' : a ≤ Max.max 1 a := le_sup_right
  generalize Max.max 1 a = A at *
  by_cases hz : z ≤ A
  · have hm : Max.max 1 (Max.max a z) ≤ A := sup_le hA (sup_le hA' hz)
    have hδ : δ * Max.max 1 (Max.max a z) ≤ δ * A := by gcongr
    have : 0 ≤ δ * A := by positivity
    linarith
  · have hzA := lt_of_not_ge hz
    have hm : Max.max 1 (Max.max a z) ≤ z := sup_le (by linarith) (sup_le (by linarith) le_rfl)
    have hδ : δ * Max.max 1 (Max.max a z) ≤ δ * z := by gcongr
    have hδz : δ * z ≤ 1 / 10 * z := by
      gcongr
      linarith
    have hz' : z ≤ 10 / 9 * A := by linarith
    have hδz' : δ * z ≤ δ * (10 / 9 * A) := by gcongr
    linarith

/-- Two roundings in a row. -/
theorem le_of_gains {a w z δ : ℚ} (h0 : 0 ≤ δ) (h1 : δ ≤ 1 / 10) (hw : w ≤ a + δ * Max.max 1 (Max.max a w))
    (hz : z ≤ w + δ * Max.max 1 (Max.max w z)) : z ≤ a + 3 * δ * Max.max 1 a := by
  have hwa := le_of_gain h0 h1 hw
  have hzw := le_of_gain h0 h1 hz
  have hA : 1 ≤ Max.max 1 a := le_sup_left
  have hA' : a ≤ Max.max 1 a := le_sup_right
  generalize Max.max 1 a = A at *
  have hδA : δ * A ≤ 1 / 10 * A := by gcongr
  have hm : Max.max 1 w ≤ 10 / 9 * A := sup_le (by linarith) (by linarith)
  have hδw : 10 / 9 * δ * Max.max 1 w ≤ 10 / 9 * δ * (10 / 9 * A) := by gcongr
  have hδA0 : 0 ≤ δ * A := by positivity
  linarith

theorem gain_of_rounds {x y : ℚ} (h : Rounds x d) (h0 : 0 ≤ d.toRat) (hy : d.toRat ≤ y) :
    d.toRat ≤ x + 2 / 3 / 10 ^ 28 * Max.max 1 y := by
  have hd := h.abs_sub_le_of_le h0 hy
  linarith [le_abs_self (d.toRat - x)]

theorem refund_le (h0 : zero ≤ c) (hcb : c ≤ b) (h : b ≤ a) (hd : a.sub b = .ok d) (he : d.add c = .ok e) :
    e.toRat ≤ a.toRat + 2 / 10 ^ 28 * Max.max 1 a.toRat := by
  have hd0 := zero_le_sub h hd
  have he0 := zero_le_add hd0 h0 he
  have hda := sub_le_left (le_trans h0 hcb) hd
  rw [zero_le_iff_toRat] at h0 hd0 he0
  rw [le_iff_toRat] at hcb h hda
  have h1 := gain_of_rounds (rounds_sub hd) hd0 (hda.trans (le_sup_left (b := d.toRat + c.toRat)))
  have h2 := gain_of_rounds (rounds_add he) he0 (le_sup_right (a := d.toRat + c.toRat))
  have h3 := le_of_gains (a := a.toRat) (by norm_num) (by norm_num) (by linarith) h2
  linarith

/-- A quotient by a price of at most one, multiplied out exactly, is off from the dividend by a rounding. -/
theorem abs_mul_sub_dividend_le (ha : zero ≤ a) (hp : zero < p) (hp1 : p ≤ one) (hq : a.div p = .ok q) :
    |q.toRat * p.toRat - a.toRat| ≤ 2 / 3 / 10 ^ 28 * Max.max 1 (q.toRat * p.toRat) := by
  have hq0 := zero_le_div ha (le_of_lt hp) hq
  have hround := (rounds_div hq).abs_sub_le_two_thirds
  rw [zero_le_iff_toRat] at hq0
  rw [zero_lt_iff_toRat] at hp
  rw [le_one_iff_toRat] at hp1
  rw [abs_of_nonneg hq0] at hround
  have hsplit : q.toRat * p.toRat - a.toRat = (q.toRat - a.toRat / p.toRat) * p.toRat := by
    rw [sub_mul, div_mul_cancel₀ _ hp.ne']
  -- a price of at most one scales the error down to that of the product
  have hscale : Max.max 1 q.toRat * p.toRat ≤ Max.max 1 (q.toRat * p.toRat) := by
    rw [max_mul_of_nonneg _ _ hp.le, one_mul]
    exact sup_le_sup hp1 le_rfl
  calc |q.toRat * p.toRat - a.toRat| = |q.toRat - a.toRat / p.toRat| * p.toRat := by
        rw [hsplit, abs_mul, abs_of_pos hp]
    _ ≤ 2 / 3 / 10 ^ 28 * Max.max 1 q.toRat * p.toRat := by gcongr
    _ = 2 / 3 / 10 ^ 28 * (Max.max 1 q.toRat * p.toRat) := mul_assoc _ _ _
    _ ≤ 2 / 3 / 10 ^ 28 * Max.max 1 (q.toRat * p.toRat) := by gcongr

/-- A quotient multiplied out exactly is little more than the dividend. -/
theorem mul_le_dividend (ha : zero ≤ a) (hp : zero < p) (hp1 : p ≤ one) (hq : a.div p = .ok q) :
    q.toRat * p.toRat ≤ a.toRat + 2 / 3 / 10 ^ 28 * Max.max 1 (Max.max a.toRat (q.toRat * p.toRat)) := by
  have hnear := (abs_le.1 (abs_mul_sub_dividend_le ha hp hp1 hq)).2
  have hmax : 2 / 3 / 10 ^ 28 * Max.max 1 (q.toRat * p.toRat) ≤
      2 / 3 / 10 ^ 28 * Max.max 1 (Max.max a.toRat (q.toRat * p.toRat)) := by
    gcongr
    exact le_sup_right
  linarith

/-- A quotient multiplied out again is little more than the dividend. -/
theorem mul_div_le (ha : zero ≤ a) (hp : zero < p) (hp1 : p ≤ one) (hq : a.div p = .ok q) (hw : q.mul p = .ok w) :
    w.toRat ≤ a.toRat + 2 / 10 ^ 28 * Max.max 1 a.toRat := by
  have hq0 := zero_le_div ha (le_of_lt hp) hq
  have hw0 := zero_le_iff_toRat.1 (zero_le_mul hq0 (le_of_lt hp) hw)
  have h1 := mul_le_dividend ha hp hp1 hq
  have h2 := gain_of_rounds (rounds_mul hw) hw0 (le_sup_right (a := q.toRat * p.toRat))
  have h3 := le_of_gains (by norm_num) (by norm_num) h1 h2
  linarith

/-- A quotient multiplied out again is little less than the dividend. -/
theorem le_mul_div (ha : zero ≤ a) (hp : zero < p) (hp1 : p ≤ one) (hq : a.div p = .ok q) (hw : q.mul p = .ok w) :
    a.toRat - 2 / 10 ^ 28 * Max.max 1 a.toRat ≤ w.toRat := by
  have hw0 := zero_le_iff_toRat.1 (zero_le_mul (zero_le_div ha (le_of_lt hp) hq) (le_of_lt hp) hw)
  have hquot := (abs_le.1 (abs_mul_sub_dividend_le ha hp hp1 hq)).1
  have hprod := (abs_le.1 (rounds_mul hw).abs_sub_le_two_thirds).1
  have hx := le_of_gain (by norm_num) (by norm_num) (mul_le_dividend ha hp hp1 hq)
  have hw' := mul_div_le ha hp hp1 hq hw
  rw [abs_of_nonneg hw0] at hprod
  generalize q.toRat * p.toRat = x at *
  have hA : 1 ≤ Max.max 1 a.toRat := le_sup_left
  have hA' : a.toRat ≤ Max.max 1 a.toRat := le_sup_right
  generalize Max.max 1 a.toRat = A at *
  -- both products are near enough to the dividend for their roundings to be measured by it
  have hmx : Max.max 1 x ≤ 10 / 9 * A := sup_le (by linarith) (by linarith)
  have hmw : Max.max 1 w.toRat ≤ 10 / 9 * A := sup_le (by linarith) (by linarith)
  linarith

/-- What part of a quotient is worth is little more than the dividend. -/
theorem mul_le_of_le_div {c : Decimal} (ha : zero ≤ a) (hp : zero < p) (hp1 : p ≤ one) (hq : a.div p = .ok q)
    (hc : c ≤ q) (hw : c.mul p = .ok w) : w.toRat ≤ a.toRat + 2 / 10 ^ 28 * Max.max 1 a.toRat := by
  have hp0 := zero_lt_iff_toRat.1 hp
  obtain ⟨whole, hwhole⟩ := exists_part (a := q) (le_of_lt hp) hp1
  rw [le_iff_toRat] at hc
  have hpart : c.toRat * p.toRat ≤ q.toRat * p.toRat := by gcongr
  exact (le_iff_toRat.1 (mul_mono hpart hw hwhole)).trans (mul_div_le ha hp hp1 hq hwhole)

end Refund
end Decimal
end OutcomeMarket

import OutcomeMarket.Proofs.Decimal.Quotient

/-! Bounds that rounded arithmetic keeps. A number that can be written is not crossed by rounding, so a bound of
the exact result that is a decimal itself bounds the rounded result too. -/
namespace OutcomeMarket
namespace Decimal

variable {a b c d e : Decimal}

theorem zero_le_iff_toRat : zero ≤ a ↔ 0 ≤ a.toRat := by rw [le_iff_toRat, toRat_zero]

theorem zero_lt_iff_toRat : zero < a ↔ 0 < a.toRat := by rw [lt_iff_toRat, toRat_zero]

theorem le_one_iff_toRat : a ≤ one ↔ a.toRat ≤ 1 := by rw [le_iff_toRat, toRat_one]

theorem isZero_of_le_zero (h0 : zero ≤ a) (h : a ≤ zero) : a.isZero = true := by
  rw [zero_le_iff_toRat] at h0
  rw [le_iff_toRat, toRat_zero] at h
  exact isZero_iff_toRat.2 (le_antisymm h h0)

theorem le_trans (h : a ≤ b) (h' : b ≤ c) : a ≤ c := by
  rw [le_iff_toRat] at *
  exact h.trans h'

theorem le_of_lt (h : a < b) : a ≤ b := by
  rw [lt_iff_toRat] at h
  exact le_iff_toRat.2 h.le

theorem le_min (h : c ≤ a) (h' : c ≤ b) : c ≤ a.min b := by
  rw [le_iff_toRat] at *
  rw [toRat_min]
  exact le_inf h h'

theorem max_le (h : a ≤ c) (h' : b ≤ c) : a.max b ≤ c := by
  rw [le_iff_toRat] at *
  rw [toRat_max]
  exact sup_le h h'

theorem zero_le_sub (h : b ≤ a) (hd : a.sub b = .ok d) : zero ≤ d := by
  rw [le_iff_toRat] at h
  exact zero_le_iff_toRat.2 ((rounds_sub hd).nonneg (by linarith))

theorem zero_le_add (ha : zero ≤ a) (hb : zero ≤ b) (hd : a.add b = .ok d) : zero ≤ d := by
  rw [zero_le_iff_toRat] at *
  exact (rounds_add hd).nonneg (by linarith)

theorem le_add_right (hb : zero ≤ b) (hd : a.add b = .ok d) : a ≤ d := by
  rw [zero_le_iff_toRat] at hb
  exact le_iff_toRat.2 ((rounds_add hd).le_of_ge (by linarith))

theorem le_add_left (ha : zero ≤ a) (hd : a.add b = .ok d) : b ≤ d := by
  rw [zero_le_iff_toRat] at ha
  exact le_iff_toRat.2 ((rounds_add hd).le_of_ge (by linarith))

theorem add_le_add (h : a ≤ c) (h' : b ≤ e) {s t : Decimal} (hs : a.add b = .ok s) (ht : c.add e = .ok t) :
    s ≤ t := by
  rw [le_iff_toRat] at *
  exact (rounds_add hs).mono (rounds_add ht) (by linarith)

theorem sub_le_left (hb : zero ≤ b) (hd : a.sub b = .ok d) : d ≤ a := by
  rw [zero_le_iff_toRat] at hb
  exact le_iff_toRat.2 ((rounds_sub hd).le_of_le (by linarith))

theorem zero_le_mul (ha : zero ≤ a) (hb : zero ≤ b) (hd : a.mul b = .ok d) : zero ≤ d := by
  rw [zero_le_iff_toRat] at *
  exact (rounds_mul hd).nonneg (mul_nonneg ha hb)

/-- A part of a number is no more than the number. -/
theorem mul_le_left (ha : zero ≤ a) (hb : b ≤ one) (hd : a.mul b = .ok d) : d ≤ a := by
  rw [zero_le_iff_toRat] at ha
  rw [le_one_iff_toRat] at hb
  exact le_iff_toRat.2 ((rounds_mul hd).le_of_le (mul_le_of_le_one_right ha hb))

theorem mul_mono (h : a.toRat * b.toRat ≤ c.toRat * e.toRat) {s t : Decimal} (hs : a.mul b = .ok s)
    (ht : c.mul e = .ok t) : s ≤ t := le_iff_toRat.2 ((rounds_mul hs).mono (rounds_mul ht) h)

theorem zero_le_div (ha : zero ≤ a) (hb : zero ≤ b) (hd : a.div b = .ok d) : zero ≤ d := by
  rw [zero_le_iff_toRat] at *
  exact (rounds_div hd).nonneg (div_nonneg ha hb)

theorem div_le_one (hb : zero < b) (h : a ≤ b) (hd : a.div b = .ok d) : d ≤ one := by
  rw [zero_lt_iff_toRat] at hb
  rw [le_iff_toRat] at *
  refine (rounds_div hd).le_of_le ?_
  rw [toRat_one, div_le_one₀ hb]
  exact h

end Decimal
end OutcomeMarket

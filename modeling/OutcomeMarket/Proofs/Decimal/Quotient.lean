import Mathlib.Algebra.Order.Field.Power
import OutcomeMarket.Proofs.Decimal.Arithmetic

/-! Long division gives the exact rational quotient, rounded once. While digits are developed, the digits
so far and the rest make up the quotient; the last digit is rounded where mantissa or scale is used up. -/
namespace OutcomeMarket
namespace Decimal

theorem room_le (q cap : ℕ) : room q cap ≤ cap := by
  induction cap with
  | zero => exact le_rfl
  | succ cap ih =>
    unfold room
    split
    · exact le_rfl
    · exact ih.trans (Nat.le_succ cap)

theorem mul_pow_room_le {q : ℕ} (hq : q ≤ maxMantissa) (cap : ℕ) : q * 10 ^ room q cap ≤ maxMantissa := by
  induction cap with
  | zero => simpa [room] using hq
  | succ cap ih =>
    unfold room
    split
    · assumption
    · exact ih

/-- No digit can be appended only if none is asked for or the mantissa is used up. -/
theorem eq_zero_or_lt_of_room_eq_zero {q cap : ℕ} (h : room q cap = 0) :
    cap = 0 ∨ maxMantissa < q * 10 := by
  induction cap with
  | zero => exact .inl rfl
  | succ cap ih =>
    unfold room at h
    split at h
    · cases h
    · rename_i hbig
      rcases ih h with rfl | hlt
      · right
        simpa using hbig
      · exact .inr hlt

theorem ten_zpow_add (s : ℤ) (x : ℕ) : (10 : ℚ) ^ (s + x) = 10 ^ s * 10 ^ x := by
  rw [zpow_add₀ (by norm_num), zpow_natCast]

/-- More digits of a quotient leave the quotient as it is. -/
theorem append_digits (d q r x : ℕ) (s : ℤ) (hd : 0 < d) :
    (((q * 10 ^ x + r * 10 ^ x / d : ℕ) : ℚ) + ((r * 10 ^ x % d : ℕ) : ℚ) / d) / 10 ^ (s + x) =
      (q + r / d) / 10 ^ s := by
  have hp : (10 : ℚ) ^ x ≠ 0 := by positivity
  have he : (((q * 10 ^ x + r * 10 ^ x / d : ℕ) : ℚ) + ((r * 10 ^ x % d : ℕ) : ℚ) / d) =
      (q + r / d) * 10 ^ x := by
    rw [Nat.cast_add, add_assoc, ← natCast_div_eq _ d hd]
    push_cast
    ring
  rw [he, ten_zpow_add, mul_div_mul_right _ _ hp]

theorem roundsAt_whole {q : ℕ} {s : ℤ} (hs : 0 ≤ s) (hs' : s ≤ 28) (hq : q ≤ maxMantissa) :
    RoundsAt (q / 10 ^ s) s.toNat q := by
  have hx : (q : ℚ) / 10 ^ s * 10 ^ s.toNat = q := by
    rw [← zpow_natCast, Int.toNat_of_nonneg hs, div_mul_cancel₀ _ (by positivity)]
  refine ⟨by unfold maxScale; omega, by simpa using hq, ?_, .inl ?_⟩
  · rw [hx]
    exact_mod_cast Nearest.intCast q
  · rw [hx, Int.cast_natCast]

/-- Without room for another digit the rest decides the last one. -/
theorem roundsAt_last {d q r : ℕ} {s : ℤ} (hr : r < d) (hs : 0 ≤ s) (hs' : s ≤ 28)
    (hroom : room q (Nat.min 9 (28 - s).toNat) = 0) {p : ℕ}
    (hp : p = if d < 2 * r ∨ (2 * r = d ∧ q % 2 = 1) then q + 1 else q) (hle : p ≤ maxMantissa) :
    RoundsAt ((q + r / d) / 10 ^ s) s.toNat p := by
  have hx : ((q : ℚ) + r / d) / 10 ^ s * 10 ^ s.toNat = q + r / d := by
    rw [← zpow_natCast, Int.toNat_of_nonneg hs, div_mul_cancel₀ _ (by positivity)]
  refine ⟨by unfold maxScale; omega, by simpa using hle, ?_, .inr ?_⟩
  · rw [hx, hp]
    exact_mod_cast nearest_quotient hr
  · rcases eq_zero_or_lt_of_room_eq_zero hroom with hcap | hbig
    · left
      change Min.min 9 (28 - s).toNat = 0 at hcap
      unfold maxScale
      omega
    · right
      have hbig' : (maxMantissa : ℚ) + 1 ≤ q * 10 := by exact_mod_cast hbig
      have hrest : (0 : ℚ) ≤ r / d := by positivity
      rw [abs_of_nonneg (by positivity), pow_succ, ← mul_assoc, hx]
      rw [cast_maxMantissa] at *
      linarith only [hbig', hrest]

/-- With one digit dropped, what was dropped decides the last one. -/
theorem nearest_dropDigit {d p r : ℕ} (hr : r < d) :
    Nearest ((p + r / d) / 10) (if 5 < p % 10 ∨ (p % 10 = 5 ∧ (r ≠ 0 ∨ p / 10 % 2 = 1))
      then p / 10 + 1 else p / 10 : ℕ) := by
  have hd : (d : ℚ) ≠ 0 := by
    have : d ≠ 0 := by omega
    exact_mod_cast this
  have hlt : p % 10 * d + r < 10 * d := by
    have := Nat.mul_le_mul_right d (show p % 10 ≤ 9 by omega)
    omega
  have hrule : (5 < p % 10 ∨ (p % 10 = 5 ∧ (r ≠ 0 ∨ p / 10 % 2 = 1))) ↔
      (10 * d < 2 * (p % 10 * d + r) ∨ (2 * (p % 10 * d + r) = 10 * d ∧ p / 10 % 2 = 1)) := by
    rcases Nat.lt_trichotomy (p % 10) 5 with hc | hc | hc
    · have := Nat.mul_le_mul_right d (show p % 10 ≤ 4 by omega)
      omega
    · rw [hc]
      omega
    · have := Nat.mul_le_mul_right d (show 6 ≤ p % 10 by omega)
      omega
  have hx : ((p : ℚ) + r / d) / 10 =
      ((p / 10 : ℕ) : ℚ) + ((p % 10 * d + r : ℕ) : ℚ) / ((10 * d : ℕ) : ℚ) := by
    have hp : (p : ℚ) = 10 * ((p / 10 : ℕ) : ℚ) + ((p % 10 : ℕ) : ℚ) := by
      exact_mod_cast (Nat.div_add_mod p 10).symm
    rw [hp]
    generalize p / 10 = n
    generalize p % 10 = c
    push_cast
    field_simp
    ring
  rw [hx]
  simp only [hrule]
  exact nearest_quotient hlt

/-- Dropping a digit of a quotient that has outgrown the mantissa rounds it at the next coarser scale. -/
theorem roundsAt_dropDigit {d p r : ℕ} {s : ℤ} {res : Quotient} (hr : r < d) (hs : s ≤ 28)
    (hp : p ≤ maxMantissa + 10 ^ 9) (hbig : (maxMantissa : ℚ) + 1 / 2 ≤ p + r / d)
    (h : Quotient.dropDigit ⟨p, s⟩ (r != 0) = some res) :
    0 ≤ res.scale ∧ RoundsAt ((p + r / d) / 10 ^ s) res.scale.toNat res.digits := by
  unfold Quotient.dropDigit at h
  split at h
  · cases h
  · rename_i hs1
    cases h
    have hs0 : 0 ≤ s - 1 := by
      simp only at hs1
      omega
    have hx : ((p : ℚ) + r / d) / 10 ^ s * 10 ^ (s - 1).toNat = (p + r / d) / 10 := by
      have hz : (10 : ℚ) ^ s = 10 ^ (s - 1).toNat * 10 := by
        rw [← zpow_natCast, Int.toNat_of_nonneg hs0, ← zpow_add_one₀ (by norm_num)]
        congr 1
        omega
      rw [hz]
      field_simp
    refine ⟨hs0, ?_, ?_, ?_, .inr (.inr ?_)⟩
    · unfold maxScale
      simp only
      omega
    · unfold maxMantissa at *
      simp only [Int.natAbs_natCast]
      split <;> omega
    · simp only [hx, bne_iff_ne]
      exact nearest_dropDigit hr
    · simp only
      rw [abs_of_nonneg (by positivity), pow_succ, ← mul_assoc, hx, div_mul_cancel₀ _ (by norm_num)]
      exact hbig

theorem append_zeros (d q x : ℕ) (s : ℤ) :
    (((q * 10 ^ x : ℕ) : ℚ) + ((0 : ℕ) : ℚ) / d) / 10 ^ (s + x) = (q + ((0 : ℕ) : ℚ) / d) / 10 ^ s := by
  have hp : (10 : ℚ) ^ x ≠ 0 := by positivity
  rw [ten_zpow_add, Nat.cast_zero, zero_div, add_zero, add_zero]
  push_cast
  rw [mul_div_mul_right _ _ hp]

theorem dropDigit_carry (s : ℤ) :
    Quotient.dropDigit ⟨maxMantissa + 1, s⟩ true = Quotient.dropDigit ⟨maxMantissa, s⟩ true := by
  have h1 : (maxMantissa + 1) / 10 = 7922816251426433759354395033 := by norm_num
  have h2 : (maxMantissa + 1) % 10 = 6 := by norm_num
  have h3 : maxMantissa / 10 = 7922816251426433759354395033 := by norm_num
  have h4 : maxMantissa % 10 = 5 := by norm_num
  simp only [Quotient.dropDigit, h1, h2, h3, h4]
  simp

/-- A last digit is raised beyond the mantissa only from the largest one, by a rest of at least half a unit. -/
theorem eq_max_of_carry {d q r : ℕ} (hr : r < d) (hq : q ≤ maxMantissa)
    (hbig : maxMantissa < if d < 2 * r ∨ (2 * r = d ∧ q % 2 = 1) then q + 1 else q) :
    q = maxMantissa ∧ (1 : ℚ) / 2 ≤ r / d := by
  have hup : d < 2 * r ∨ (2 * r = d ∧ q % 2 = 1) := by
    by_contra hdown
    rw [if_neg hdown] at hbig
    omega
  rw [if_pos hup] at hbig
  have hd : (0 : ℚ) < d := by
    have : 0 < d := by omega
    exact_mod_cast this
  refine ⟨by omega, ?_⟩
  rw [div_le_div_iff₀ (by norm_num) hd, one_mul, mul_comm]
  have : d ≤ 2 * r := by omega
  exact_mod_cast this

/-- A last digit that is raised beyond the mantissa is dropped like any other. -/
theorem roundsAt_carry {d q r : ℕ} {s : ℤ} {res : Quotient} (hr : r < d) (hr0 : r ≠ 0) (hs : s ≤ 28)
    (hq : q ≤ maxMantissa)
    (hbig : maxMantissa < if d < 2 * r ∨ (2 * r = d ∧ q % 2 = 1) then q + 1 else q)
    (h : Quotient.dropDigit ⟨if d < 2 * r ∨ (2 * r = d ∧ q % 2 = 1) then q + 1 else q, s⟩ true = some res) :
    0 ≤ res.scale ∧ RoundsAt ((q + r / d) / 10 ^ s) res.scale.toNat res.digits := by
  obtain ⟨rfl, hhalf⟩ := eq_max_of_carry hr hq hbig
  have hup : d < 2 * r ∨ (2 * r = d ∧ maxMantissa % 2 = 1) := by
    by_contra hdown
    rw [if_neg hdown] at hbig
    exact lt_irrefl _ hbig
  have hr' : (r != 0) = true := by simpa using hr0
  rw [if_pos hup, dropDigit_carry, ← hr'] at h
  exact roundsAt_dropDigit hr hs (by omega) (add_le_add_right hhalf _) h

/-- Digits that are appended beyond the mantissa are one too many. -/
theorem roundsAt_outgrown {d q r x : ℕ} {s : ℤ} {res : Quotient} (hr : r < d) (hx : x ≤ 9)
    (hs : s + x ≤ 28) (hfit : q * 10 ^ x ≤ maxMantissa) (hbig : maxMantissa < q * 10 ^ x + r * 10 ^ x / d)
    (h : Quotient.dropDigit ⟨q * 10 ^ x + r * 10 ^ x / d, s + x⟩ (r * 10 ^ x % d != 0) = some res) :
    0 ≤ res.scale ∧ RoundsAt ((q + r / d) / 10 ^ s) res.scale.toNat res.digits := by
  have hdigits : r * 10 ^ x / d ≤ 10 ^ 9 :=
    calc r * 10 ^ x / d ≤ d * 10 ^ x / d := Nat.div_le_div_right (Nat.mul_le_mul_right _ hr.le)
      _ = 10 ^ x := Nat.mul_div_cancel_left _ (by omega)
      _ ≤ 10 ^ 9 := Nat.pow_le_pow_right (by norm_num) hx
  rw [← append_digits d q r x s (by omega)]
  refine roundsAt_dropDigit (Nat.mod_lt _ (by omega)) hs (by omega) ?_ h
  have hbig' : (maxMantissa : ℚ) + 1 ≤ (q * 10 ^ x + r * 10 ^ x / d : ℕ) := by exact_mod_cast hbig
  have hrest : (0 : ℚ) ≤ ((r * 10 ^ x % d : ℕ) : ℚ) / d := by positivity
  rw [cast_maxMantissa] at *
  linarith only [hbig', hrest]

/-- Every way in which the development of a quotient ends is a rounding of it. -/
theorem roundsAt_of_develop {d q r : ℕ} {s : ℤ} {res : Quotient} (h : develop d q r s = some res)
    (hr : r < d) (hs : s ≤ 28) (hq : q ≤ maxMantissa) :
    0 ≤ res.scale ∧ RoundsAt ((q + r / d) / 10 ^ s) res.scale.toNat res.digits := by
  induction q, r, s using develop.induct (d := d) with
  | case1 q s hs0 =>
    rw [develop, if_pos rfl, if_pos hs0] at h
    cases h
    refine ⟨hs0, ?_⟩
    rw [Nat.cast_zero, zero_div, add_zero]
    exact roundsAt_whole hs0 hs hq
  | case2 q s hs0 x hx =>
    rw [develop, if_pos rfl, if_neg hs0, if_pos hx] at h
    cases h
  | case3 q s hs0 x hx ih =>
    rw [develop, if_pos rfl, if_neg hs0, if_neg hx] at h
    have hx' : x ≤ (-s).toNat := Nat.min_le_right _ _
    rw [← append_zeros d q x s]
    exact ih h hr (by omega) (le_of_not_gt hx)
  | case4 q r s hr0 x hx =>
    rw [develop, if_neg hr0, if_pos hx] at h
    cases h
  | case5 q r s hr0 x hx hx0 q' hbig =>
    rw [develop, if_neg hr0, if_neg hx, if_pos hx0] at h
    simp only [q', dite_eq_ite] at hbig
    simp only [if_pos hbig] at h
    exact roundsAt_carry hr hr0 hs hq hbig h
  | case6 q r s hr0 x hx hx0 q' hsmall =>
    rw [develop, if_neg hr0, if_neg hx, if_pos hx0] at h
    simp only [q', dite_eq_ite] at hsmall
    simp only [if_neg hsmall] at h
    cases h
    have hs0 : 0 ≤ s := by omega
    exact ⟨hs0, roundsAt_last hr hs0 hs hx0 rfl (le_of_not_gt hsmall)⟩
  | case7 q r s hr0 x hx hx0 q' hbig =>
    rw [develop, if_neg hr0, if_neg hx, if_neg hx0, if_pos hbig] at h
    have hx9 : x ≤ 9 := (room_le _ _).trans (Nat.min_le_left _ _)
    have hx' : x ≤ (28 - s).toNat := (room_le _ _).trans (Nat.min_le_right _ _)
    exact roundsAt_outgrown hr hx9 (by omega) (mul_pow_room_le hq _) hbig h
  | case8 q r s hr0 x hx hx0 q' r' hsmall ih =>
    rw [develop, if_neg hr0, if_neg hx, if_neg hx0, if_neg hsmall] at h
    have hx' : x ≤ (28 - s).toNat := (room_le _ _).trans (Nat.min_le_right _ _)
    rw [← append_digits d q r x s (by omega)]
    exact ih h (Nat.mod_lt _ (by omega)) (by omega) (le_of_not_gt hsmall)

/-- The number that digits at a scale stand for. -/
def Quotient.value (q : Quotient) : ℚ := q.digits / 10 ^ q.scale

theorem Quotient.value_shorten {q : Quotient} {k : ℕ} (h : q.digits % 10 ^ k = 0) :
    Quotient.value ⟨q.digits / 10 ^ k, q.scale - k⟩ = q.value := by
  have hp : (10 : ℚ) ^ k ≠ 0 := by positivity
  have hq : (q.digits : ℚ) = ((q.digits / 10 ^ k : ℕ) : ℚ) * 10 ^ k := by
    exact_mod_cast (Nat.div_mul_cancel (Nat.dvd_of_mod_eq_zero h)).symm
  have hz : (10 : ℚ) ^ q.scale = 10 ^ (q.scale - k) * 10 ^ k := by
    rw [← ten_zpow_add]
    congr 1
    omega
  unfold value
  rw [hq, hz, mul_div_mul_right _ _ hp]

/-- Zeros can be taken off the end of a quotient. -/
structure Quotient.Strips (q q' : Quotient) : Prop where
  value_eq : q'.value = q.value
  scale_nonneg : 0 ≤ q.scale → 0 ≤ q'.scale

namespace Quotient

theorem Strips.refl (q : Quotient) : q.Strips q := ⟨rfl, id⟩

theorem Strips.trans {a b c : Quotient} (h : a.Strips b) (h' : b.Strips c) : a.Strips c :=
  ⟨h'.value_eq.trans h.value_eq, h'.scale_nonneg ∘ h.scale_nonneg⟩

theorem strips_stripZeros (q : Quotient) (k : ℕ) : q.Strips (q.stripZeros k) := by
  unfold stripZeros
  split
  · rename_i h
    exact ⟨value_shorten h.2, fun _ => by simp only; omega⟩
  · exact .refl q

theorem strips_stripBlocks (q : Quotient) (fuel : ℕ) : q.Strips (q.stripBlocks fuel) := by
  induction fuel generalizing q with
  | zero => exact .refl q
  | succ fuel ih =>
    unfold stripBlocks
    split
    · rename_i h
      have hk : q.Strips ⟨q.digits / 10 ^ 8, q.scale - 8⟩ :=
        ⟨value_shorten h.2.2, fun _ => by simp only; omega⟩
      exact hk.trans (ih _)
    · exact .refl q

theorem strips_strip (q : Quotient) : q.Strips q.strip :=
  (((strips_stripBlocks q 4).trans (strips_stripZeros _ 4)).trans (strips_stripZeros _ 2)).trans
    (strips_stripZeros _ 1)

end Quotient

theorem toRat_div_toRat (a b : Decimal) (hb : 0 < b.mantissa) :
    a.toRat / b.toRat = withSign (a.negative != b.negative)
      ((((a.mantissa / b.mantissa : ℕ) : ℚ) + ((a.mantissa % b.mantissa : ℕ) : ℚ) / b.mantissa) /
        10 ^ ((a.scale : ℤ) - b.scale)) := by
  have hsign : ∀ (p q : Bool) (x y : ℚ), withSign p x / withSign q y = withSign (p != q) (x / y) := by
    intro p q x y
    cases p <;> cases q <;> simp [withSign, div_neg, neg_div]
  have hb0 : (b.mantissa : ℚ) ≠ 0 := by exact_mod_cast hb.ne'
  rw [toRat_eq_withSign a, toRat_eq_withSign b, hsign, ← natCast_div_eq _ _ hb,
    zpow_sub₀ (by norm_num), zpow_natCast, zpow_natCast]
  congr 1
  field_simp

theorem rounds_div {a b d : Decimal} (h : a.div b = .ok d) : Rounds (a.toRat / b.toRat) d := by
  unfold div at h
  split at h
  · cases h
  rename_i hb
  split at h
  · rename_i ha
    cases h
    have h0 : a.toRat / b.toRat = zero.toRat := by rw [isZero_iff_toRat.1 ha, zero_div, toRat_zero]
    rw [h0]
    exact .refl zero
  · obtain ⟨q, hq, hd⟩ := Option.bind_eq_some_iff.1 (orFault_eq_ok_iff.1 h)
    obtain ⟨raw, hraw, hform⟩ := Option.map_eq_some_iff.1 hq
    have hb0 : 0 < b.mantissa := by
      have : b.mantissa ≠ 0 := by simpa [isZero] using hb
      omega
    have hmax := a.mantissa_le
    have hscale := a.scale_le
    unfold maxScale at hscale
    obtain ⟨hs0, hr⟩ := roundsAt_of_develop hraw (Nat.mod_lt _ hb0) (by omega)
      ((Nat.div_le_self _ _).trans hmax)
    -- the form may be shorter, the value is that of the rounded quotient
    have hstrip : raw.Strips q := by
      rw [← hform]
      split
      · exact .refl raw
      · exact raw.strips_strip
    have hq0 := hstrip.scale_nonneg hs0
    rw [if_pos hq0] at hd
    rw [toRat_div_toRat a b hb0]
    refine .withSign hr ((toRat_of_ofParts? hd).2.trans ?_)
    have hv := hstrip.value_eq
    unfold Quotient.value at hv
    rw [← zpow_natCast, ← zpow_natCast, Int.toNat_of_nonneg hq0, Int.toNat_of_nonneg hs0, hv, Int.cast_natCast]

end Decimal
end OutcomeMarket

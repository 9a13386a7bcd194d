import OutcomeMarket.Decimal.Arithmetic
import OutcomeMarket.Proofs.Decimal.Rounding

/-! Sums, differences and products of decimals are the exact rational results, rounded once. -/
namespace OutcomeMarket
namespace Decimal

/-- A number or its opposite. -/
def withSign (negative : Bool) (x : ℚ) : ℚ := if negative then -x else x

theorem Rounds.withSign {x : ℚ} {t : ℕ} {k : ℤ} {d : Decimal} {negative : Bool} (h : RoundsAt x t k)
    (hd : d.toRat = withSign negative (k / 10 ^ t)) : Rounds (withSign negative x) d := by
  cases negative
  · exact ⟨t, k, h, hd⟩
  · refine ⟨t, -k, h.neg, ?_⟩
    rw [hd]
    simp [Decimal.withSign, neg_div]

/-- Every decimal is its own rounding. -/
theorem Rounds.refl (d : Decimal) : Rounds d.toRat d := by
  have hp : (10 : ℚ) ^ d.scale ≠ 0 := by positivity
  have hk : (d.signed : ℚ) = d.toRat * 10 ^ d.scale := by
    rw [toRat_eq_div, div_mul_cancel₀ _ hp]
  refine ⟨d.scale, d.signed, ⟨d.scale_le, natAbs_signed_le d, ?_, .inl hk⟩, toRat_eq_div d⟩
  rw [← hk]
  exact .intCast _

theorem ofParts?_eq_none_iff {negative : Bool} {m s : ℕ} :
    ofParts? negative m s = none ↔ ¬ (m ≤ maxMantissa ∧ s ≤ maxScale) := by
  unfold ofParts? ofSigned?
  split <;> simp_all

theorem toRat_of_ofParts? {negative : Bool} {m s : ℕ} {d : Decimal}
    (h : ofParts? negative m s = some d) :
    (m ≤ maxMantissa ∧ s ≤ maxScale) ∧ d.toRat = withSign negative (m / 10 ^ s) := by
  unfold ofParts? ofSigned? at h
  split at h
  · rename_i hr
    cases h
    refine ⟨hr, ?_⟩
    rw [toRat_eq_div]
    by_cases h0 : m = 0
    · simp [signed, withSign, h0]
    · cases negative <;> simp [signed, withSign, h0, neg_div]
  · cases h

/-- The rule for halves: a quotient with its rest goes to the nearest integer. -/
theorem nearest_quotient {d q r : ℕ} (hr : r < d) :
    Nearest (q + r / d) (if d < 2 * r ∨ (2 * r = d ∧ q % 2 = 1) then q + 1 else q : ℕ) := by
  have hd : (0 : ℚ) < d := by
    have : 0 < d := by omega
    exact_mod_cast this
  have hr0 : (0 : ℚ) ≤ r / d := by positivity
  have hr1 : (r : ℚ) / d < 1 := by
    rw [div_lt_one hd]
    exact_mod_cast hr
  have hhalf : (r : ℚ) / d ≤ 1 / 2 ↔ 2 * r ≤ d := by
    rw [div_le_div_iff₀ hd (by norm_num), one_mul, mul_comm]
    exact_mod_cast Iff.rfl
  have htie : (r : ℚ) / d = 1 / 2 → 2 * r = d := by
    intro h
    rw [div_eq_div_iff hd.ne' (by norm_num), one_mul, mul_comm] at h
    exact_mod_cast h
  split
  · rename_i hup
    have hle : (1 : ℚ) / 2 ≤ r / d := by
      rw [div_le_div_iff₀ (by norm_num) hd, one_mul, mul_comm]
      have : d ≤ 2 * r := by omega
      exact_mod_cast this
    have he : |(((q + 1 : ℕ) : ℤ) : ℚ) - (q + r / d)| = 1 - r / d := by
      push_cast
      rw [abs_of_nonneg (by linarith)]
      ring
    refine ⟨by linarith, fun h => ?_⟩
    have := htie (by linarith)
    exact ⟨(q + 1) / 2, by omega⟩
  · rename_i hdown
    have he : |((q : ℤ) : ℚ) - (q + r / d)| = r / d := by
      push_cast
      rw [abs_of_nonpos (by linarith)]
      ring
    refine ⟨by linarith [hhalf.2 (by omega)], fun h => ?_⟩
    have := htie (by linarith)
    exact ⟨q / 2, by omega⟩

theorem natCast_div_eq (n d : ℕ) (hd : 0 < d) :
    (n : ℚ) / d = ((n / d : ℕ) : ℚ) + ((n % d : ℕ) : ℚ) / d := by
  have h0 : (d : ℚ) ≠ 0 := by exact_mod_cast hd.ne'
  field_simp
  exact_mod_cast (Nat.div_add_mod n d).symm

theorem nearest_roundHalfEven (n : ℕ) {d : ℕ} (hd : 0 < d) :
    Nearest (n / d) (roundHalfEven n d : ℕ) := by
  rw [natCast_div_eq n d hd]
  exact nearest_quotient (Nat.mod_lt n hd)

/-- Of the forms of a number in range, the one that is chosen gives up the fewest digits. -/
theorem exists_of_fit? {negative : Bool} {m s : ℕ} {d : Decimal} (h : fit? negative m s = some d) :
    ∃ k ≤ s, shorten? negative m s k = some d ∧ ∀ j < k, shorten? negative m s j = none := by
  obtain ⟨before, k, after, hl, hk, hn⟩ := List.findSome?_eq_some_iff.1 h
  have hlen : before.length + (1 + after.length) = s + 1 := by
    have := congrArg List.length hl
    simp only [List.length_range, List.length_append, List.length_cons] at this
    omega
  have hget : ∀ j : ℕ, j < s + 1 → (before ++ k :: after)[j]? = some j := by
    intro j hj
    rw [← hl, List.getElem?_range hj]
  have hk' : before.length = k := by
    have := hget before.length (by omega)
    simpa using this.symm
  refine ⟨k, by omega, hk, fun j hj => hn j ?_⟩
  have := hget j (by omega)
  rw [List.getElem?_append_left (by omega)] at this
  exact List.mem_of_getElem? this

theorem rounds_fit? {negative : Bool} {m s : ℕ} {d : Decimal} (h : fit? negative m s = some d) :
    Rounds (withSign negative (m / 10 ^ s)) d := by
  obtain ⟨k, hks, hk, hfirst⟩ := exists_of_fit? h
  obtain ⟨⟨hm, hs⟩, hd⟩ := toRat_of_ofParts? hk
  have hx : (m : ℚ) / 10 ^ s * 10 ^ (s - k) = m / ((10 ^ k : ℕ) : ℚ) := by
    have hp : (10 : ℚ) ^ s = 10 ^ k * 10 ^ (s - k) := by rw [← pow_add, Nat.add_sub_cancel' hks]
    rw [hp]
    push_cast
    field_simp
  refine .withSign (k := (roundHalfEven m (10 ^ k) : ℕ)) ⟨hs, by simpa using hm, ?_, ?_⟩ (by simpa using hd)
  · rw [hx]
    exact nearest_roundHalfEven m (by positivity)
  · rcases Nat.eq_zero_or_pos k with rfl | hpos
    · left
      rw [hx]
      simp [roundHalfEven, Nat.mod_one]
    · right
      -- with one digit more the number was out of range, by its scale or by its mantissa
      have hprev := ofParts?_eq_none_iff.1 (hfirst (k - 1) (by omega))
      rcases Nat.lt_or_ge maxMantissa (roundHalfEven m (10 ^ (k - 1))) with hbig | hsmall
      · right
        have hnear := (nearest_roundHalfEven m (d := 10 ^ (k - 1)) (by positivity)).le_add
        have hx' : (m : ℚ) / 10 ^ s * 10 ^ (s - k + 1) = m / ((10 ^ (k - 1) : ℕ) : ℚ) := by
          have hp : (10 : ℚ) ^ s = 10 ^ (k - 1) * 10 ^ (s - k + 1) := by
            rw [← pow_add]
            congr 1
            omega
          rw [hp]
          push_cast
          field_simp
        have hbig' : (maxMantissa : ℚ) + 1 ≤ roundHalfEven m (10 ^ (k - 1)) := by exact_mod_cast hbig
        rw [abs_of_nonneg (by positivity), hx']
        rw [Int.cast_natCast] at hnear
        rw [cast_maxMantissa] at *
        linarith only [hnear, hbig']
      · left
        omega

theorem exactSum_div (a b : Decimal) :
    (exactSum a b : ℚ) / 10 ^ Nat.max a.scale b.scale = a.toRat + b.toRat := by
  have h0 : ∀ n : ℕ, (10 : ℚ) ^ n ≠ 0 := fun n => by positivity
  have ha : (10 : ℚ) ^ Nat.max a.scale b.scale = 10 ^ a.scale * 10 ^ (b.scale - a.scale) := by
    rw [← pow_add]
    congr 1
    change Max.max _ _ = _
    omega
  have hb : (10 : ℚ) ^ Nat.max a.scale b.scale = 10 ^ b.scale * 10 ^ (a.scale - b.scale) := by
    rw [← pow_add]
    congr 1
    change Max.max _ _ = _
    omega
  unfold exactSum
  push_cast
  rw [add_div, toRat_eq_div a, toRat_eq_div b]
  congr 1
  · rw [ha, mul_div_mul_right _ _ (h0 _)]
  · rw [hb, mul_div_mul_right _ _ (h0 _)]

theorem withSign_natAbs (z : ℤ) (p : ℚ) : withSign (decide (z < 0)) (z.natAbs / p) = z / p := by
  unfold withSign
  by_cases hz : z < 0
  · have : ((z.natAbs : ℕ) : ℚ) = -z := by
      rw [← Int.cast_natCast, Int.ofNat_natAbs_of_nonpos hz.le, Int.cast_neg]
    simp [hz, this, neg_div]
  · have : ((z.natAbs : ℕ) : ℚ) = z := by
      rw [← Int.cast_natCast, Int.natAbs_of_nonneg (by omega)]
    simp [hz, this]

theorem rounds_sum? {a b d : Decimal} (h : sum? a b = some d) : Rounds (a.toRat + b.toRat) d := by
  unfold sum? at h
  split at h
  · rename_i ha
    cases h
    rw [isZero_iff_toRat.1 ha, zero_add]
    exact .refl b
  · split at h
    · rename_i hb
      cases h
      rw [isZero_iff_toRat.1 hb, add_zero]
      exact .refl a
    · have hr := rounds_fit? h
      rwa [withSign_natAbs, exactSum_div] at hr

theorem orFault_eq_ok_iff {α : Type} {f : ArithmeticFault} {x : Option α} {a : α} :
    orFault f x = .ok a ↔ x = some a := by cases x <;> simp [orFault]

theorem orFault_eq_error_iff {α : Type} {f g : ArithmeticFault} {x : Option α} :
    orFault f x = .error g ↔ g = f ∧ ¬ ∃ a, orFault f x = .ok a := by cases x <;> simp [orFault, eq_comm]

theorem rounds_add {a b d : Decimal} (h : a.add b = .ok d) : Rounds (a.toRat + b.toRat) d :=
  rounds_sum? (orFault_eq_ok_iff.1 h)

theorem rounds_sub {a b d : Decimal} (h : a.sub b = .ok d) : Rounds (a.toRat - b.toRat) d := by
  have hr := rounds_sum? (orFault_eq_ok_iff.1 h)
  rwa [toRat_neg, ← sub_eq_add_neg] at hr

theorem toRat_eq_withSign (a : Decimal) : a.toRat = withSign a.negative (a.mantissa / 10 ^ a.scale) := by
  rw [toRat_eq_div]
  unfold signed withSign
  cases a.negative <;> simp [neg_div]

theorem withSign_mul (p q : Bool) (x y : ℚ) :
    withSign p x * withSign q y = withSign (p != q) (x * y) := by
  cases p <;> cases q <;> simp [withSign]

/-- A product of short mantissas with many fractional digits is below half of the last place. -/
theorem rounds_zero_of_vanish {a b : Decimal}
    (h : a.mantissa < 2 ^ 32 ∧ b.mantissa < 2 ^ 32 ∧ 47 < a.scale + b.scale) :
    Rounds (a.toRat * b.toRat) zero := by
  obtain ⟨ha, hb, hs⟩ := h
  have hm : (a.mantissa * b.mantissa : ℚ) ≤ 2 ^ 64 := by
    have : a.mantissa * b.mantissa ≤ 2 ^ 32 * 2 ^ 32 := Nat.mul_le_mul ha.le hb.le
    exact_mod_cast this
  have hp : (10 : ℚ) ^ 48 ≤ 10 ^ (a.scale + b.scale) := pow_le_pow_right₀ (by norm_num) hs
  have hx : (a.mantissa * b.mantissa : ℚ) / 10 ^ (a.scale + b.scale) * 10 ^ maxScale < 1 / 2 := by
    calc (a.mantissa * b.mantissa : ℚ) / 10 ^ (a.scale + b.scale) * 10 ^ maxScale
        ≤ 2 ^ 64 / 10 ^ 48 * 10 ^ maxScale := by gcongr
      _ < 1 / 2 := by norm_num
  rw [toRat_eq_withSign a, toRat_eq_withSign b, withSign_mul, div_mul_div_comm, ← pow_add]
  refine .withSign (t := maxScale) (k := 0) ⟨le_rfl, by simp, ⟨?_, fun htie => ?_⟩, .inr (.inl rfl)⟩ (by
    simp [Decimal.withSign])
  · rw [Int.cast_zero, zero_sub, abs_neg, abs_of_nonneg (by positivity)]
    exact hx.le
  · rw [Int.cast_zero, zero_sub, abs_neg, abs_of_nonneg (by positivity)] at htie
    exact absurd htie hx.ne

theorem rounds_mul {a b d : Decimal} (h : a.mul b = .ok d) : Rounds (a.toRat * b.toRat) d := by
  unfold mul at h
  split at h
  · rename_i hz
    cases h
    have h0 : a.toRat * b.toRat = zero.toRat := by
      rw [toRat_zero, mul_eq_zero, ← isZero_iff_toRat, ← isZero_iff_toRat]
      simpa using hz
    rw [h0]
    exact .refl zero
  · split at h
    · rename_i hv
      cases h
      exact rounds_zero_of_vanish hv
    · have hr := rounds_fit? (orFault_eq_ok_iff.1 h)
      rwa [Nat.cast_mul, pow_add, ← div_mul_div_comm, ← withSign_mul, ← toRat_eq_withSign,
        ← toRat_eq_withSign] at hr

end Decimal
end OutcomeMarket

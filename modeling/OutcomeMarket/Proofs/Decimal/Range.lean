import OutcomeMarket.Proofs.Decimal.Bounds

/-! Results that exist. Digits after the point can be given up, so a sum, difference, product or quotient can be
written just when the nearest integer to its exact value is no larger than the largest mantissa. -/
namespace OutcomeMarket
namespace Decimal

variable {a b d : Decimal}

theorem exists_ofParts? {m s : ℕ} (negative : Bool) (hm : m ≤ maxMantissa) (hs : s ≤ maxScale) :
    ∃ d, ofParts? negative m s = some d := by
  cases h : ofParts? negative m s with
  | none => exact absurd ⟨hm, hs⟩ (ofParts?_eq_none_iff.1 h)
  | some d => exact ⟨d, rfl⟩

/-- Whatever number of digits the mantissa holds can be written at any scale. -/
theorem exists_toRat_eq {z : ℤ} {s : ℕ} (hz : z.natAbs ≤ maxMantissa) (hs : s ≤ maxScale) :
    ∃ e : Decimal, e.toRat = z / 10 ^ s := by
  refine ⟨⟨decide (z < 0), z.natAbs, s, hz, hs⟩, ?_⟩
  rw [toRat_eq_div]
  have hz' : signed ⟨decide (z < 0), z.natAbs, s, hz, hs⟩ = z := by
    change (if decide (z < 0) = true then -(z.natAbs : ℤ) else z.natAbs) = z
    by_cases h : z < 0
    · rw [if_pos (decide_eq_true h)]
      omega
    · rw [if_neg (by simpa using h)]
      omega
  rw [hz']

/-- A number whose nearest integer fits the mantissa. The largest mantissa is odd, so that half a unit beyond it is
rounded out of range. -/
def Fits (x : ℚ) : Prop := |x| < maxMantissa + 1 / 2

theorem fits_of_abs_le {x : ℚ} (h : |x| ≤ maxMantissa) : Fits x := lt_of_le_of_lt h (by norm_num)

theorem fits_withSign (negative : Bool) (x : ℚ) : Fits (withSign negative x) ↔ Fits x := by
  unfold Fits withSign
  cases negative <;> simp

/-- Only what fits is ever the exact value of a result. -/
theorem Rounds.fits {x : ℚ} (h : Rounds x d) : Fits x := by
  obtain ⟨t, k, hk, -⟩ := h
  have hp : (1 : ℚ) ≤ 10 ^ t := one_le_pow₀ (by norm_num)
  have hx : |x| ≤ |x * 10 ^ t| := by
    rw [abs_mul, abs_of_pos (by positivity : (0 : ℚ) < 10 ^ t)]
    exact le_mul_of_one_le_right (abs_nonneg x) hp
  have hunits := hk.abs_units_le
  have hnear := hk.nearest.near
  have hsub := abs_sub_abs_le_abs_sub (x * 10 ^ t) (k : ℚ)
  rw [abs_sub_comm] at hsub
  by_contra hfits
  have hge : (maxMantissa : ℚ) + 1 / 2 ≤ |x| := le_of_not_gt hfits
  rw [cast_maxMantissa] at hunits hge
  -- then the units are the largest mantissa, as an even number
  have hmax : |(k : ℚ)| = maxMantissa := by
    rw [cast_maxMantissa]
    exact le_antisymm hunits (by linarith)
  obtain ⟨n, hn⟩ := hk.nearest.even (le_antisymm hnear (by linarith))
  have hk' : k.natAbs = maxMantissa := by
    rw [← Int.cast_abs, Int.abs_eq_natAbs] at hmax
    exact_mod_cast hmax
  unfold maxMantissa at hk'
  omega

theorem roundHalfEven_le {n d k : ℕ} (hd : 0 < d) (h : (n : ℚ) / d < k + 1 / 2) : roundHalfEven n d ≤ k := by
  have hle := (nearest_roundHalfEven n hd).le_add
  have hlt : ((roundHalfEven n d : ℕ) : ℚ) < (k + 1 : ℕ) := by
    push_cast at hle ⊢
    linarith
  exact Nat.lt_succ_iff.1 (by exact_mod_cast hlt)

theorem exists_fit? {m s : ℕ} (negative : Bool) (h : Fits (m / 10 ^ s)) : ∃ d, fit? negative m s = some d := by
  -- without any digit after the point it fits, so it fits with as many as there is room for
  have hlast : shorten? negative m s s = ofParts? negative (roundHalfEven m (10 ^ s)) 0 := by
    simp [shorten?]
  have hle : roundHalfEven m (10 ^ s) ≤ maxMantissa := by
    unfold Fits at h
    rw [abs_of_nonneg (by positivity)] at h
    exact roundHalfEven_le (by positivity) (by exact_mod_cast h)
  obtain ⟨d, hd⟩ := exists_ofParts? negative hle (Nat.zero_le maxScale)
  cases hf : fit? negative m s with
  | some e => exact ⟨e, rfl⟩
  | none =>
    have hn := List.findSome?_eq_none_iff.1 hf s (List.mem_range.2 (Nat.lt_succ_self s))
    rw [hlast, hd] at hn
    cases hn

theorem abs_toRat_le (a : Decimal) : |a.toRat| ≤ maxMantissa := by
  simpa using abs_toRat_mul_pow_le (Nat.zero_le a.scale)

theorem abs_toRat (a : Decimal) : |a.toRat| = a.mantissa / 10 ^ a.scale := by
  have hp : (0 : ℚ) < 10 ^ a.scale := by positivity
  rw [toRat_eq_div, abs_div, abs_of_pos hp, ← Int.cast_abs, Int.abs_eq_natAbs, natAbs_signed, Int.cast_natCast]

theorem exists_sum? (h : Fits (a.toRat + b.toRat)) : ∃ d, sum? a b = some d := by
  unfold sum?
  split
  · exact ⟨b, rfl⟩
  · split
    · exact ⟨a, rfl⟩
    · apply exists_fit?
      have hp : (0 : ℚ) < 10 ^ Nat.max a.scale b.scale := by positivity
      unfold Fits at h ⊢
      rw [← exactSum_div, abs_div, abs_of_pos hp, ← Int.cast_abs, Int.abs_eq_natAbs] at h
      rw [Int.cast_natCast] at h
      rwa [abs_of_nonneg (by positivity)]

theorem exists_add_iff : (∃ d, a.add b = .ok d) ↔ Fits (a.toRat + b.toRat) := by
  constructor
  · rintro ⟨d, hd⟩
    exact (rounds_add hd).fits
  · intro h
    obtain ⟨d, hd⟩ := exists_sum? h
    exact ⟨d, orFault_eq_ok_iff.2 hd⟩

/-- Nothing but the size of a sum keeps it from being written. -/
theorem add_eq_error_iff {f : ArithmeticFault} :
    a.add b = .error f ↔ f = .additionOverflow ∧ ¬ Fits (a.toRat + b.toRat) := by
  rw [← exists_add_iff]
  exact orFault_eq_error_iff

theorem exists_sub_iff : (∃ d, a.sub b = .ok d) ↔ Fits (a.toRat - b.toRat) := by
  constructor
  · rintro ⟨d, hd⟩
    exact (rounds_sub hd).fits
  · intro h
    rw [sub_eq_add_neg, ← toRat_neg] at h
    obtain ⟨d, hd⟩ := exists_sum? h
    exact ⟨d, orFault_eq_ok_iff.2 hd⟩

theorem exists_mul_iff : (∃ d, a.mul b = .ok d) ↔ Fits (a.toRat * b.toRat) := by
  constructor
  · rintro ⟨d, hd⟩
    exact (rounds_mul hd).fits
  · intro h
    unfold mul
    split
    · exact ⟨zero, rfl⟩
    · split
      · exact ⟨zero, rfl⟩
      · have hm : Fits ((a.mantissa * b.mantissa : ℕ) / 10 ^ (a.scale + b.scale)) := by
          unfold Fits at h ⊢
          rw [abs_mul, abs_toRat, abs_toRat, div_mul_div_comm, ← pow_add] at h
          rw [abs_of_nonneg (by positivity)]
          exact_mod_cast h
        obtain ⟨d, hd⟩ := exists_fit? (a.negative != b.negative) hm
        exact ⟨d, orFault_eq_ok_iff.2 hd⟩

theorem exists_add (h : |a.toRat + b.toRat| ≤ maxMantissa) : ∃ d, a.add b = .ok d :=
  exists_add_iff.2 (fits_of_abs_le h)

theorem exists_sub (h : |a.toRat - b.toRat| ≤ maxMantissa) : ∃ d, a.sub b = .ok d :=
  exists_sub_iff.2 (fits_of_abs_le h)

theorem exists_mul (h : |a.toRat * b.toRat| ≤ maxMantissa) : ∃ d, a.mul b = .ok d :=
  exists_mul_iff.2 (fits_of_abs_le h)

/-- A part of a number can be taken. -/
theorem exists_part (h0 : zero ≤ b) (h1 : b ≤ one) : ∃ d, a.mul b = .ok d := by
  apply exists_mul
  rw [abs_mul, abs_of_nonneg (zero_le_iff_toRat.1 h0)]
  exact (mul_le_of_le_one_right (abs_nonneg _) (le_one_iff_toRat.1 h1)).trans (abs_toRat_le a)

/-- What is there can be taken away. -/
theorem exists_sub_of_le (h0 : zero ≤ b) (h : b ≤ a) : ∃ d, a.sub b = .ok d := by
  rw [zero_le_iff_toRat] at h0
  rw [le_iff_toRat] at h
  apply exists_sub
  have ha := abs_toRat_le a
  rw [abs_of_nonneg (h0.trans h)] at ha
  rw [abs_of_nonneg (by linarith)]
  linarith

theorem pow_scale_le (a : Decimal) : (10 : ℤ) ^ a.scale ≤ 10 ^ maxScale :=
  pow_le_pow_right₀ (by norm_num) a.scale_le

section Fraction

variable (h0 : zero ≤ a) (h1 : a ≤ one)
include h0 h1

/-- The units of a number between nothing and one. -/
theorem signed_bounds : 0 ≤ a.signed ∧ a.signed ≤ 10 ^ a.scale := by
  have hp : (0 : ℚ) < 10 ^ a.scale := by positivity
  rw [zero_le_iff_toRat, toRat_eq_div, le_div_iff₀ hp, zero_mul] at h0
  rw [le_one_iff_toRat, toRat_eq_div, div_le_one₀ hp] at h1
  exact ⟨by exact_mod_cast h0, by exact_mod_cast h1⟩

/-- What is left of one is exact. -/
theorem exists_one_sub : ∃ d, one.sub a = .ok d ∧ d.toRat = 1 - a.toRat := by
  obtain ⟨hn, hle⟩ := signed_bounds h0 h1
  have hpow := pow_scale_le a
  have hm : (10 : ℤ) ^ maxScale ≤ maxMantissa := by norm_num
  obtain ⟨e, he⟩ := exists_toRat_eq (z := 10 ^ a.scale - a.signed) (by omega) a.scale_le
  have hv : e.toRat = 1 - a.toRat := by
    rw [he, toRat_eq_div]
    push_cast
    field_simp
  rw [zero_le_iff_toRat] at h0
  obtain ⟨d, hd⟩ := exists_sub_of_le (a := one) (zero_le_iff_toRat.2 h0) h1
  have hr := rounds_sub hd
  rw [toRat_one, ← hv] at hr
  exact ⟨d, hd, hr.eq_toRat.trans hv⟩

theorem exists_double : ∃ e : Decimal, e.toRat = 2 * a.toRat := by
  obtain ⟨hn, hle⟩ := signed_bounds h0 h1
  have hpow := pow_scale_le a
  have hm : 2 * (10 : ℤ) ^ maxScale ≤ maxMantissa := by norm_num
  obtain ⟨e, he⟩ := exists_toRat_eq (z := 2 * a.signed) (by omega) a.scale_le
  refine ⟨e, ?_⟩
  rw [he, toRat_eq_div]
  push_cast
  ring

theorem abs_sub_le_one {b : Decimal} (h0' : zero ≤ b) (h1' : b ≤ one) : |a.toRat - b.toRat| ≤ 1 := by
  rw [zero_le_iff_toRat] at h0 h0'
  rw [le_one_iff_toRat] at h1 h1'
  exact abs_le.2 ⟨by linarith, by linarith⟩

theorem exists_sub_of_fractions {b : Decimal} (h0' : zero ≤ b) (h1' : b ≤ one) : ∃ d, a.sub b = .ok d :=
  exists_sub ((abs_sub_le_one h0 h1 h0' h1').trans (by norm_num))

theorem exists_add_of_fractions {b : Decimal} (h0' : zero ≤ b) (h1' : b ≤ one) : ∃ d, a.add b = .ok d := by
  rw [zero_le_iff_toRat] at h0 h0'
  rw [le_one_iff_toRat] at h1 h1'
  apply exists_add
  rw [abs_of_nonneg (by linarith), cast_maxMantissa]
  linarith

/-- Fractions of one have exact differences. -/
theorem toRat_sub_of_fractions {b d : Decimal} (h0' : zero ≤ b) (h1' : b ≤ one) (h : a.sub b = .ok d) :
    d.toRat = a.toRat - b.toRat := by
  have hp : (0 : ℚ) < 10 ^ maxScale := by positivity
  have ha := toRat_mul_pow a.scale_le
  have hb := toRat_mul_pow b.scale_le
  set x := a.signed * 10 ^ (maxScale - a.scale)
  set y := b.signed * 10 ^ (maxScale - b.scale)
  have hxy : (a.toRat - b.toRat) * 10 ^ maxScale = ((x - y : ℤ) : ℚ) := by
    push_cast
    rw [sub_mul, ha, hb]
  have hle := abs_sub_le_one h0 h1 h0' h1'
  have hz : |x - y| ≤ 10 ^ maxScale := by
    have : |((x - y : ℤ) : ℚ)| ≤ 10 ^ maxScale := by
      rw [← hxy, abs_mul, abs_of_pos hp]
      exact mul_le_of_le_one_left hp.le hle
    exact_mod_cast this
  rw [Int.abs_eq_natAbs] at hz
  have hm : (10 : ℤ) ^ maxScale ≤ maxMantissa := by norm_num
  obtain ⟨e, he⟩ := exists_toRat_eq (z := x - y) (by omega) le_rfl
  have hv : e.toRat = a.toRat - b.toRat := by
    rw [he, ← hxy, mul_div_cancel_right₀ _ hp.ne']
  have hr := rounds_sub h
  rw [← hv] at hr
  exact hr.eq_toRat.trans hv

end Fraction

/-- Digits without a place after the point that have outgrown the mantissa belong to a number that does not fit. -/
theorem not_fits_of_outgrown {n : ℕ} {y : ℚ} {s : ℤ} (hn : maxMantissa < n) (hy : 0 ≤ y) (hs : s ≤ 0) :
    ¬ Fits ((n + y) / 10 ^ s) := by
  have hn' : (maxMantissa : ℚ) + 1 ≤ n := by exact_mod_cast hn
  have hp : (0 : ℚ) < 10 ^ s := by positivity
  have hp1 : (10 : ℚ) ^ s ≤ 1 := zpow_le_one_of_nonpos₀ (by norm_num) hs
  have hle : (n : ℚ) + y ≤ (n + y) / 10 ^ s := le_div_self (by positivity) hp hp1
  unfold Fits
  rw [abs_of_nonneg (by positivity)]
  rw [cast_maxMantissa] at *
  linarith

/-- Room for fewer digits than asked for is all the room that the mantissa has. -/
theorem lt_of_room_lt {q cap : ℕ} (h : room q cap < cap) : maxMantissa < q * 10 ^ (room q cap + 1) := by
  induction cap with
  | zero => exact absurd h (Nat.not_lt_zero _)
  | succ cap ih =>
    unfold room at h ⊢
    split at h
    · exact absurd h (lt_irrefl _)
    · rename_i hbig
      rw [if_neg hbig]
      obtain hlt | heq := Nat.lt_or_eq_of_le (room_le q cap)
      · exact ih hlt
      · rw [heq]
        exact lt_of_not_ge hbig

theorem exists_dropDigit {p : ℕ} {t : ℤ} (x : Bool) (ht : 1 ≤ t) : ∃ res, Quotient.dropDigit ⟨p, t⟩ x = some res := by
  unfold Quotient.dropDigit
  rw [if_neg (by simpa using ht)]
  exact ⟨_, rfl⟩

/-- Long division comes to an end if the quotient fits. -/
theorem exists_develop {d q r : ℕ} {s : ℤ} (hr : r < d) (hs : s ≤ 28) (hq : q ≤ maxMantissa)
    (hfits : Fits ((q + r / d) / 10 ^ s)) : ∃ res, develop d q r s = some res := by
  induction q, r, s using develop.induct (d := d) with
  | case1 q s hs0 =>
    rw [develop, if_pos rfl, if_pos hs0]
    exact ⟨_, rfl⟩
  | case2 q s hs0 x hx =>
    have hx' : x ≤ (-s).toNat := Nat.min_le_right _ _
    rw [← append_zeros d q x s] at hfits
    exact absurd hfits (not_fits_of_outgrown hx (by positivity) (by omega))
  | case3 q s hs0 x hx ih =>
    have hx' : x ≤ (-s).toNat := Nat.min_le_right _ _
    rw [develop, if_pos rfl, if_neg hs0, if_neg hx]
    exact ih hr (by omega) (le_of_not_gt hx) (by rwa [append_zeros])
  | case4 q r s hr0 x hx =>
    -- one more digit would still stand before the point
    have hcap : Nat.min 9 (28 - s).toNat = 9 := Nat.min_eq_left (by omega)
    have hbig : maxMantissa < q * 10 ^ (x + 1) := lt_of_room_lt (by
      rw [hcap]
      exact hcap ▸ hx.1)
    rw [← append_digits d q r (x + 1) s (by omega)] at hfits
    exact absurd hfits (not_fits_of_outgrown (hbig.trans_le (Nat.le_add_right _ _)) (by positivity) (by omega))
  | case5 q r s hr0 x hx hx0 q' hbig =>
    rw [develop, if_neg hr0, if_neg hx, if_pos hx0]
    simp only [q', dite_eq_ite] at hbig
    simp only [if_pos hbig]
    by_cases hs1 : 1 ≤ s
    · exact exists_dropDigit true hs1
    · have hs0 : s = 0 := by omega
      obtain ⟨rfl, hhalf⟩ := eq_max_of_carry hr hq hbig
      have hle : (maxMantissa : ℚ) + 1 / 2 ≤ |((maxMantissa : ℚ) + r / d) / 10 ^ s| := by
        rw [hs0, zpow_zero, div_one, abs_of_nonneg (by positivity)]
        exact add_le_add_right hhalf _
      exact absurd hfits (not_lt_of_ge hle)
  | case6 q r s hr0 x hx hx0 q' hsmall =>
    rw [develop, if_neg hr0, if_neg hx, if_pos hx0]
    simp only [q', dite_eq_ite] at hsmall
    simp only [if_neg hsmall]
    exact ⟨_, rfl⟩
  | case7 q r s hr0 x hx hx0 q' hbig =>
    rw [develop, if_neg hr0, if_neg hx, if_neg hx0, if_pos hbig]
    by_cases hs1 : 1 ≤ s + x
    · exact exists_dropDigit _ hs1
    · rw [← append_digits d q r x s (by omega)] at hfits
      exact absurd hfits (not_fits_of_outgrown hbig (by positivity) (by omega))
  | case8 q r s hr0 x hx hx0 q' r' hsmall ih =>
    rw [develop, if_neg hr0, if_neg hx, if_neg hx0, if_neg hsmall]
    have hx' : x ≤ (28 - s).toNat := (room_le _ _).trans (Nat.min_le_right _ _)
    exact ih (Nat.mod_lt _ (by omega)) (by omega) (le_of_not_gt hsmall) (by rwa [append_digits d q r x s (by omega)])

namespace Quotient

/-- Neither digits nor scale grow. -/
structure Shrinks (q q' : Quotient) : Prop where
  digits_le : q'.digits ≤ q.digits
  scale_le : q'.scale ≤ q.scale

theorem Shrinks.refl (q : Quotient) : q.Shrinks q := ⟨le_rfl, le_rfl⟩

theorem Shrinks.trans {p q r : Quotient} (h : p.Shrinks q) (h' : q.Shrinks r) : p.Shrinks r :=
  ⟨h'.digits_le.trans h.digits_le, h'.scale_le.trans h.scale_le⟩

theorem shrinks_shorten (q : Quotient) (k : ℕ) : q.Shrinks ⟨q.digits / 10 ^ k, q.scale - k⟩ :=
  ⟨Nat.div_le_self _ _, by simp⟩

theorem shrinks_stripZeros (q : Quotient) (k : ℕ) : q.Shrinks (q.stripZeros k) := by
  unfold stripZeros
  split
  · exact q.shrinks_shorten k
  · exact .refl q

theorem shrinks_stripBlocks (q : Quotient) (fuel : ℕ) : q.Shrinks (q.stripBlocks fuel) := by
  induction fuel generalizing q with
  | zero => exact .refl q
  | succ fuel ih =>
    unfold stripBlocks
    split
    · exact (q.shrinks_shorten 8).trans (ih _)
    · exact .refl q

theorem shrinks_strip (q : Quotient) : q.Shrinks q.strip :=
  (((shrinks_stripBlocks q 4).trans (shrinks_stripZeros _ 4)).trans (shrinks_stripZeros _ 2)).trans
    (shrinks_stripZeros _ 1)

end Quotient

theorem exists_div_iff (hb : b.isZero = false) : (∃ d, a.div b = .ok d) ↔ Fits (a.toRat / b.toRat) := by
  constructor
  · rintro ⟨d, hd⟩
    exact (rounds_div hd).fits
  intro h
  have hb0 : 0 < b.mantissa := by
    have : b.mantissa ≠ 0 := by simpa [isZero] using hb
    omega
  unfold div
  rw [hb, if_neg (by simp)]
  by_cases ha : a.isZero = true
  · rw [if_pos ha]
    exact ⟨zero, rfl⟩
  · rw [if_neg ha]
    have hscale := a.scale_le
    unfold maxScale at hscale
    have hrest := Nat.mod_lt a.mantissa hb0
    have hle : a.mantissa / b.mantissa ≤ maxMantissa := (Nat.div_le_self _ _).trans a.mantissa_le
    have hfits : Fits ((((a.mantissa / b.mantissa : ℕ) : ℚ) + ((a.mantissa % b.mantissa : ℕ) : ℚ) / b.mantissa) /
        10 ^ ((a.scale : ℤ) - b.scale)) := by
      rwa [toRat_div_toRat a b hb0, fits_withSign] at h
    obtain ⟨raw, hraw⟩ := exists_develop hrest (by omega) hle hfits
    obtain ⟨hs0, hr⟩ := roundsAt_of_develop hraw hrest (by omega) hle
    simp only [hraw, Option.map_some, Option.bind_some]
    -- taking off zeros keeps digits and scale in range
    have hform : ∀ q : Quotient, raw.Strips q → raw.Shrinks q → ∃ d, orFault .divisionOverflow
        (if 0 ≤ q.scale then ofParts? (a.negative != b.negative) q.digits q.scale.toNat else none) = .ok d := by
      intro q hstrips hshrinks
      have hdigits := hr.units_le
      have hle := hr.scale_le
      have hd := hshrinks.digits_le
      have ht := hshrinks.scale_le
      rw [if_pos (hstrips.scale_nonneg hs0)]
      rw [Int.natAbs_natCast] at hdigits
      obtain ⟨d, hd⟩ := exists_ofParts? (a.negative != b.negative) (hd.trans hdigits)
        (s := q.scale.toNat) (by omega)
      exact ⟨d, orFault_eq_ok_iff.2 hd⟩
    by_cases hm : a.mantissa % b.mantissa = 0
    · rw [if_pos hm]
      exact hform raw (.refl raw) (.refl raw)
    · rw [if_neg hm]
      exact hform _ raw.strips_strip raw.shrinks_strip

theorem isZero_of_pos (h : zero < b) : b.isZero = false := by
  rw [← Bool.not_eq_true, isZero_iff_toRat]
  exact (zero_lt_iff_toRat.1 h).ne'

/-- A number that is divided by no less than itself. -/
theorem exists_div_of_le (hb : zero < b) (h0 : zero ≤ a) (h : a ≤ b) : ∃ d, a.div b = .ok d := by
  rw [exists_div_iff (isZero_of_pos hb)]
  have hb := zero_lt_iff_toRat.1 hb
  have hle : a.toRat / b.toRat ≤ 1 := (div_le_one₀ hb).2 (le_iff_toRat.1 h)
  apply fits_of_abs_le
  rw [abs_of_nonneg (div_nonneg (zero_le_iff_toRat.1 h0) hb.le), cast_maxMantissa]
  linarith

/-- Nothing but the size of a quotient keeps it from being written. -/
theorem div_eq_error_iff {f : ArithmeticFault} (hb : b.isZero = false) :
    a.div b = .error f ↔ f = .divisionOverflow ∧ ¬ Fits (a.toRat / b.toRat) := by
  rw [← exists_div_iff hb]
  unfold div
  rw [hb, if_neg (by simp)]
  by_cases ha : a.isZero = true
  · simp [ha]
  · rw [if_neg ha]
    exact orFault_eq_error_iff

theorem exists_div_two (a : Decimal) : ∃ d, a.div two = .ok d := by
  rw [exists_div_iff rfl]
  apply fits_of_abs_le
  have ha := abs_toRat_le a
  have h2 : two.toRat = 2 := by simp
  rw [h2, abs_div, abs_of_pos (by norm_num : (0 : ℚ) < 2)]
  exact (div_le_self (abs_nonneg a.toRat) (by norm_num)).trans ha

end Decimal
end OutcomeMarket

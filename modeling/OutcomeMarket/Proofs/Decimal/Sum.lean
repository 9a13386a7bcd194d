import Mathlib.Algebra.Order.BigOperators.Group.List
import OutcomeMarket.Ensure
import OutcomeMarket.Proofs.Decimal.Range

/-! Sums of many decimals, added up from the left. Each addition rounds, by no more than a half, so the sum is close to
the exact one; and it fails if a running total outgrows the numbers, which it may do although the exact sum does not.
But where no term is negative all the roundings together cannot run the total up to more than twice what is added. -/
namespace OutcomeMarket
namespace Decimal

variable {a d v x : Decimal} {xs ys : List Decimal} {start p q : ℚ}

theorem sum_append (xs ys : List Decimal) : sum (xs ++ ys) = sum xs >>= fun v => ys.foldlM add v :=
  List.foldlM_append

theorem sum_concat (xs : List Decimal) (x : Decimal) : sum (xs ++ [x]) = sum xs >>= fun v => v.add x := by
  rw [sum_append]
  congr 1
  funext v
  exact bind_pure (v.add x)

theorem sum_concat_eq_ok_iff : sum (xs ++ [x]) = .ok d ↔ ∃ v, sum xs = .ok v ∧ v.add x = .ok d := by
  rw [sum_concat, bind_eq_ok_iff]

/-- Nothing is added to the first number, so it keeps its form. -/
theorem sum_single (x : Decimal) : sum [x] = .ok x := rfl

/-- A sum that has left the range does not come back into it. -/
theorem sum_prefix (h : sum (xs ++ ys) = .ok v) : ∃ w, sum xs = .ok w := by
  rw [sum_append] at h
  obtain ⟨w, hw, -⟩ := bind_eq_ok_iff.1 h
  exact ⟨w, hw⟩

/-- The exact sum of a list. -/
def total (xs : List Decimal) : ℚ := (xs.map toRat).sum

theorem total_append (xs ys : List Decimal) : total (xs ++ ys) = total xs + total ys := by simp [total]

theorem total_concat (xs : List Decimal) (x : Decimal) : total (xs ++ [x]) = total xs + x.toRat := by simp [total]

theorem total_cons (x : Decimal) (xs : List Decimal) : total (x :: xs) = x.toRat + total xs := by simp [total]

theorem total_perm (h : xs.Perm ys) : total xs = total ys := (h.map toRat).sum_eq

theorem total_nonneg (h0 : ∀ x ∈ xs, zero ≤ x) : 0 ≤ total xs :=
  List.sum_nonneg (List.forall_mem_map.2 fun x hx => zero_le_iff_toRat.1 (h0 x hx))

theorem total_le_of_sublist (h : xs.Sublist ys) (h0 : ∀ y ∈ ys, zero ≤ y) : total xs ≤ total ys :=
  (h.map toRat).sum_le_sum (List.forall_mem_map.2 fun y hy => zero_le_iff_toRat.1 (h0 y hy))

/-- Each number that is added costs half of one at most. -/
theorem abs_sum_sub_total_le (h : sum xs = .ok d) : |d.toRat - total xs| ≤ xs.length / 2 := by
  induction xs using List.reverseRecOn generalizing d with
  | nil =>
    cases h
    simp [total]
  | append_singleton xs x ih =>
    obtain ⟨v, hv, hd⟩ := sum_concat_eq_ok_iff.1 h
    have hlast := (rounds_add hd).abs_sub_le_half
    have hbefore := ih hv
    rw [total_concat, List.length_append, List.length_singleton]
    calc |d.toRat - (total xs + x.toRat)|
        = |(d.toRat - (v.toRat + x.toRat)) + (v.toRat - total xs)| := by ring_nf
      _ ≤ |d.toRat - (v.toRat + x.toRat)| + |v.toRat - total xs| := abs_add_le _ _
      _ ≤ 1 / 2 + xs.length / 2 := by gcongr
      _ = ((xs.length + 1 : ℕ) : ℚ) / 2 := by
        push_cast
        ring

/-- Numbers that are not negative have a sum if they come to little enough. -/
theorem exists_sum (h0 : ∀ x ∈ xs, zero ≤ x) (h : total xs + xs.length / 2 < maxMantissa + 1) :
    ∃ d, sum xs = .ok d := by
  induction xs using List.reverseRecOn with
  | nil => exact ⟨zero, rfl⟩
  | append_singleton xs x ih =>
    have h0' : ∀ y ∈ xs, zero ≤ y := fun y hy => h0 y (List.mem_append_left _ hy)
    have hx := zero_le_iff_toRat.1 (h0 x (List.mem_append_right xs List.mem_cons_self))
    have htotal := total_nonneg h0'
    rw [total_concat, List.length_append, List.length_singleton] at h
    push_cast at h
    obtain ⟨v, hv⟩ := ih h0' (by linarith)
    obtain ⟨hlow, hhigh⟩ := abs_le.1 (abs_sum_sub_total_le hv)
    have hfits : Fits (v.toRat + x.toRat) := abs_lt.2 ⟨by linarith, by linarith⟩
    obtain ⟨d, hd⟩ := exists_add_iff.2 hfits
    exact ⟨d, sum_concat_eq_ok_iff.2 ⟨v, hv, hd⟩⟩

/-- And if there is a sum, they come to little more. -/
theorem total_lt_of_sum (h : sum xs = .ok d) : total xs < maxMantissa + xs.length / 2 := by
  induction xs using List.reverseRecOn with
  | nil =>
    unfold total
    norm_num
  | append_singleton xs x ih =>
    obtain ⟨v, hv, hd⟩ := sum_concat_eq_ok_iff.1 h
    have hfits : v.toRat + x.toRat < maxMantissa + 1 / 2 := (le_abs_self _).trans_lt (rounds_add hd).fits
    obtain ⟨hlow, -⟩ := abs_le.1 (abs_sum_sub_total_le hv)
    rw [total_concat, List.length_append, List.length_singleton]
    push_cast
    linarith

/-- How a total grows by a number that is not negative. Where the sum keeps all the digits of the total, the total
itself is no further from the exact sum than what is added, so that rounding adds no more than that again; where a digit
is given up, the sum fills the mantissa. -/
theorem add_le_double (hv : zero ≤ v) (h0 : zero ≤ a) (hd : v.add a = .ok d) :
    d.toRat ≤ v.toRat + 2 * a.toRat ∨ ∃ t < v.scale, d.toRat ≤ v.toRat + a.toRat + 1 / 2 / 10 ^ t ∧
      (maxMantissa : ℚ) + 1 / 2 ≤ d.toRat * 10 ^ (t + 1) := by
  have ha := zero_le_iff_toRat.1 h0
  have hd0 := zero_le_iff_toRat.1 (zero_le_add hv h0 hd)
  obtain ⟨t, k, hk, hdk⟩ := rounds_add hd
  have hp : (0 : ℚ) < 10 ^ t := by positivity
  have hunits : |(k : ℚ)| = d.toRat * 10 ^ t := by
    have hk0 : (k : ℚ) = d.toRat * 10 ^ t := by rw [hdk, div_mul_cancel₀ _ hp.ne']
    rw [hk0, abs_of_nonneg (mul_nonneg hd0 hp.le)]
  by_cases hroom : v.scale ≤ t
  · have hnear := hk.no_nearer hroom
    rw [← hdk, abs_sub_comm v.toRat, add_sub_cancel_left, abs_of_nonneg ha] at hnear
    exact .inl (by linarith [le_abs_self (d.toRat - (v.toRat + a.toRat))])
  · have hhalf : d.toRat - (v.toRat + a.toRat) ≤ 1 / 2 / 10 ^ t := by
      refine (le_abs_self _).trans ?_
      rw [hdk, RoundsAt.abs_div_sub]
      gcongr
      exact hk.nearest.near
    obtain hexact | hmax | hcoarse := hk.finest
    · rw [hexact, mul_div_cancel_right₀ _ hp.ne'] at hdk
      exact .inl (by linarith)
    · have hscale := v.scale_le
      omega
    · refine .inr ⟨t, lt_of_not_ge hroom, by linarith, ?_⟩
      rw [pow_succ, ← mul_assoc, ← hunits]
      exact hk.coarse_units hcoarse

/-- A total that was run up from `start` by numbers that are not negative and come to `added`. What they add may have
been doubled, and half a unit of the last digit comes on top for each digit that the total had to give up; no digit is
given up twice, so all of that is less than one such unit. -/
structure RunUp (start added : ℚ) (v : Decimal) : Prop where
  nonneg : zero ≤ v
  at_most : ∃ s ≤ maxScale, v.toRat ≤ start + 2 * added + 1 / 10 ^ s ∧
    (s = maxScale ∨ (maxMantissa : ℚ) + 1 / 2 ≤ v.toRat * 10 ^ (s + 1))

namespace RunUp

theorem refl (h : zero ≤ v) : RunUp v.toRat 0 v := ⟨h, maxScale, le_rfl, by norm_num, .inl rfl⟩

theorem mono (h : RunUp start p v) (hpq : p ≤ q) : RunUp start q v := by
  obtain ⟨h0, s, hs, hle, hkept⟩ := h
  exact ⟨h0, s, hs, by linarith, hkept⟩

theorem le (h : RunUp start p v) : v.toRat ≤ start + 2 * p + 1 := by
  obtain ⟨-, s, -, hle, -⟩ := h
  have hunit : (1 : ℚ) / 10 ^ s ≤ 1 := div_le_one_of_le₀ (one_le_pow₀ (by norm_num)) (by positivity)
  linarith

theorem add (h : RunUp start p v) (h0 : zero ≤ a) (hd : v.add a = .ok d) : RunUp start (p + a.toRat) d := by
  have hrises := le_iff_toRat.1 (le_add_right h0 hd)
  have ha := zero_le_iff_toRat.1 h0
  obtain ⟨hv0, s, hs, hle, hkept⟩ := h
  refine ⟨zero_le_add hv0 h0 hd, ?_⟩
  obtain hdouble | ⟨t, hfewer, hhalf, hfull⟩ := add_le_double hv0 h0 hd
  · refine ⟨s, hs, by linarith, hkept.imp_right fun hbig => hbig.trans ?_⟩
    gcongr
  · have hscale := v.scale_le
    -- the digit that is given up now was there before, so it was not given up before
    have hst : t < s := by
      obtain rfl | hbig := hkept
      · exact hfewer.trans_le hscale
      by_contra hle
      have hroom := abs_toRat_mul_pow_le (a := v) (t := t + 1) hfewer
      rw [abs_of_nonneg (zero_le_iff_toRat.1 hv0)] at hroom
      have hpow : v.toRat * 10 ^ (s + 1) ≤ v.toRat * 10 ^ (t + 1) := by
        have := zero_le_iff_toRat.1 hv0
        gcongr
        · norm_num
        · omega
      rw [cast_maxMantissa] at *
      linarith
    have hunit : (1 : ℚ) / 10 ^ s ≤ 1 / 10 / 10 ^ t := by
      rw [div_div, mul_comm, ← pow_succ]
      gcongr
      · norm_num
      · omega
    have hpos : (0 : ℚ) < 1 / 10 ^ t := by positivity
    have hten : (1 : ℚ) / 10 / 10 ^ t = 1 / 10 * (1 / 10 ^ t) := by ring
    have htwo : (1 : ℚ) / 2 / 10 ^ t = 1 / 2 * (1 / 10 ^ t) := by ring
    exact ⟨t, by omega, by linarith, .inr hfull⟩

theorem exists_add (h : RunUp start p v) (h0 : zero ≤ a) (hroom : start + 2 * (p + a.toRat) + 1 ≤ maxMantissa) :
    ∃ d, v.add a = .ok d ∧ RunUp start (p + a.toRat) d := by
  have hv0 := zero_le_iff_toRat.1 h.nonneg
  have ha := zero_le_iff_toRat.1 h0
  have hle := h.le
  obtain ⟨d, hd⟩ := Decimal.exists_add (a := v) (b := a) (by
    rw [abs_of_nonneg (by linarith)]
    linarith)
  exact ⟨d, hd, h.add h0 hd⟩

theorem exists_foldlM (h : RunUp start p v) (h0 : ∀ x ∈ xs, zero ≤ x)
    (hroom : start + 2 * (p + total xs) + 1 ≤ maxMantissa) :
    ∃ d, xs.foldlM Decimal.add v = .ok d ∧ RunUp start (p + total xs) d := by
  induction xs generalizing p v with
  | nil => exact ⟨v, rfl, by simpa [total] using h⟩
  | cons x xs ih =>
    obtain ⟨hx, hxs⟩ := List.forall_mem_cons.1 h0
    have hrest := total_nonneg hxs
    rw [total_cons, ← add_assoc] at hroom ⊢
    obtain ⟨w, hw, hrun⟩ := h.exists_add hx (by linarith)
    obtain ⟨d, hd, hrun⟩ := ih hrun hxs hroom
    exact ⟨d, bind_eq_ok_iff.2 ⟨w, hw, hd⟩, hrun⟩

end RunUp

/-- However many the numbers are, they have a sum if twice what they come to is little enough. -/
theorem exists_sum_of_twice (h0 : ∀ x ∈ xs, zero ≤ x) (h : 2 * total xs + 1 ≤ maxMantissa) : ∃ d, sum xs = .ok d := by
  have hstart : RunUp 0 0 zero := by simpa using RunUp.refl (v := zero) (by decide)
  obtain ⟨d, hd, -⟩ := hstart.exists_foldlM h0 (by linarith)
  exact ⟨d, hd⟩

end Decimal
end OutcomeMarket

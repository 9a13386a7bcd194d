import OutcomeMarket.Proofs.Computation
import OutcomeMarket.Proofs.Decimal.Range

/-! Arithmetic depends on values, not on scales. Comparisons of numbers with the same values come out the same, and
an operation on them has a result in one form just when it has one in the other, of the same value. -/
namespace OutcomeMarket

/-- Wherever one computation has a result the other has one too, and the two correspond. -/
def Carries {ε δ α β : Type} (R : α → β → Prop) (x : Except ε α) (y : Except δ β) : Prop :=
  ∀ a, x = .ok a → ∃ b, y = .ok b ∧ R a b

section Carries

variable {ε δ α β α' β' : Type} {R : α → β → Prop} {S : α' → β' → Prop} {x x' : Except ε α} {y y' : Except δ β}
  {f : α → Except ε α'} {g : β → Except δ β'} {a : α} {b : β}

theorem carries_pure (h : R a b) : Carries R (pure a : Except ε α) (pure b : Except δ β) := by
  rintro _ ⟨⟩
  exact ⟨b, rfl, h⟩

theorem carries_none :
    Carries (Option.Rel R) (pure none : Except ε (Option α)) (pure none : Except δ (Option β)) := carries_pure .none

theorem Carries.bind (h : Carries R x y) (hf : ∀ a b, R a b → Carries S (f a) (g b)) :
    Carries S (x >>= f) (y >>= g) := by
  intro c hc
  obtain ⟨a, ha, hc⟩ := bind_eq_ok_iff.1 hc
  obtain ⟨b, hb, hab⟩ := h a ha
  obtain ⟨d, hd, hcd⟩ := hf a b hab c hc
  exact ⟨d, bind_eq_ok_iff.2 ⟨b, hb, hd⟩, hcd⟩

/-- Where conditions agree, it is enough to look at either way alone. -/
theorem carries_ite {p q : Prop} [Decidable p] [Decidable q] (hpq : p ↔ q) (h : Carries R x y)
    (h' : Carries R x' y') : Carries R (if p then x else x') (if q then y else y') := by
  by_cases hp : p
  · rwa [if_pos hp, if_pos (hpq.1 hp)]
  · rwa [if_neg hp, if_neg (mt hpq.2 hp)]

end Carries

namespace Decimal

variable {a a' b b' : Decimal}

theorem SameValue.refl (a : Decimal) : SameValue a a := Eq.refl _

theorem SameValue.trans {c : Decimal} (h : SameValue a b) (h' : SameValue b c) : SameValue a c := by
  rw [sameValue_iff_toRat] at *
  exact h.trans h'

theorem SameValue.toRat_eq (h : SameValue a b) : a.toRat = b.toRat := sameValue_iff_toRat.1 h

/-- A number is rounded to one value. -/
theorem Rounds.sameValue {x : ℚ} {d e : Decimal} (h : Rounds x d) (h' : Rounds x e) : SameValue d e :=
  sameValue_iff_toRat.2 (le_antisymm (h.mono h' le_rfl) (h'.mono h le_rfl))

section Congruence

variable (ha : SameValue a a') (hb : SameValue b b')
include ha hb

theorem le_congr : a ≤ b ↔ a' ≤ b' := by
  rw [le_iff_toRat, le_iff_toRat, ha.toRat_eq, hb.toRat_eq]

theorem lt_congr : a < b ↔ a' < b' := by
  rw [lt_iff_toRat, lt_iff_toRat, ha.toRat_eq, hb.toRat_eq]

theorem min_congr : SameValue (a.min b) (a'.min b') := by
  rw [sameValue_iff_toRat, toRat_min, toRat_min, ha.toRat_eq, hb.toRat_eq]

theorem max_congr : SameValue (a.max b) (a'.max b') := by
  rw [sameValue_iff_toRat, toRat_max, toRat_max, ha.toRat_eq, hb.toRat_eq]

theorem carries_add : Carries SameValue (a.add b) (a'.add b') := by
  intro d hd
  have hr := rounds_add hd
  rw [ha.toRat_eq, hb.toRat_eq] at hr
  obtain ⟨d', hd'⟩ := exists_add_iff.2 hr.fits
  exact ⟨d', hd', hr.sameValue (rounds_add hd')⟩

theorem carries_sub : Carries SameValue (a.sub b) (a'.sub b') := by
  intro d hd
  have hr := rounds_sub hd
  rw [ha.toRat_eq, hb.toRat_eq] at hr
  obtain ⟨d', hd'⟩ := exists_sub_iff.2 hr.fits
  exact ⟨d', hd', hr.sameValue (rounds_sub hd')⟩

theorem carries_mul : Carries SameValue (a.mul b) (a'.mul b') := by
  intro d hd
  have hr := rounds_mul hd
  rw [ha.toRat_eq, hb.toRat_eq] at hr
  obtain ⟨d', hd'⟩ := exists_mul_iff.2 hr.fits
  exact ⟨d', hd', hr.sameValue (rounds_mul hd')⟩

theorem carries_div : Carries SameValue (a.div b) (a'.div b') := by
  intro d hd
  have hr := rounds_div hd
  have hb0 : b'.isZero = false := by
    by_contra hz
    have hzero : b.isZero = true := by
      rw [isZero_iff_toRat, hb.toRat_eq, ← isZero_iff_toRat]
      exact Bool.eq_true_of_not_eq_false hz
    unfold div at hd
    rw [if_pos hzero] at hd
    cases hd
  rw [ha.toRat_eq, hb.toRat_eq] at hr
  obtain ⟨d', hd'⟩ := (exists_div_iff hb0).2 hr.fits
  exact ⟨d', hd', hr.sameValue (rounds_div hd')⟩

end Congruence

theorem isZero_congr (h : SameValue a b) : a.isZero = b.isZero := by
  rw [Bool.eq_iff_iff, isZero_iff_toRat, isZero_iff_toRat, h.toRat_eq]

end Decimal
end OutcomeMarket

/-! Conditions that a computation insists on: it goes on if they hold and ends with an error if not. -/
namespace OutcomeMarket

variable {ε α β : Type}

/-- Go on only if a condition holds. -/
def ensure (p : Prop) [Decidable p] (e : ε) : Except ε Unit := if p then .ok () else .error e

theorem ensure_eq_ok_iff {p : Prop} [Decidable p] {e : ε} {u : Unit} : ensure p e = .ok u ↔ p := by
  by_cases h : p <;> simp [ensure, h]

/-- Two computations in sequence succeed if each of them does. -/
theorem bind_eq_ok_iff {x : Except ε α} {f : α → Except ε β} {b : β} :
    (x >>= f) = .ok b ↔ ∃ a, x = .ok a ∧ f a = .ok b := by cases x <;> simp [bind, Except.bind]

theorem pure_eq_ok_iff {a b : α} : (pure a : Except ε α) = .ok b ↔ a = b := by
  simp [pure, Except.pure]

theorem ensure_bind_eq_ok_iff {p : Prop} [Decidable p] {e : ε} {x : Except ε α} {a : α} :
    (ensure p e >>= fun _ => x) = .ok a ↔ p ∧ x = .ok a := by
  simp [bind_eq_ok_iff, ensure_eq_ok_iff]

/-- The first condition that fails names the error. -/
theorem ensure_bind_of_not {p : Prop} [Decidable p] (h : ¬p) (e : ε) (x : Except ε α) :
    (ensure p e >>= fun _ => x) = .error e := by simp [ensure, h, bind, Except.bind]

/-- A renamed error changes no success. -/
theorem mapError_eq_ok_iff {δ : Type} {x : Except ε α} {f : ε → δ} {a : α} :
    x.mapError f = .ok a ↔ x = .ok a := by
  cases x with
  | ok b =>
    have h : (Except.ok b : Except ε α).mapError f = .ok b := rfl
    simp [h]
  | error _ => exact iff_of_false nofun nofun

end OutcomeMarket

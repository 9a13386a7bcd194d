import OutcomeMarket.Ensure
import OutcomeMarket.Fault

/-! Computations on a state that may fail. A sequence succeeds if each part does, in the state that the part
before it left; it fails where the first part fails, and leaves the state of that moment. -/
namespace OutcomeMarket

variable {ε σ α β : Type}

section Except

variable {x : Except ε α} {f : α → Except ε β} {e : ε}

theorem bind_eq_error_iff : (x >>= f) = .error e ↔ x = .error e ∨ ∃ a, x = .ok a ∧ f a = .error e := by
  cases x <;> simp [bind, Except.bind]

theorem pure_ne_error {a : α} : (pure a : Except ε α) ≠ .error e := nofun

theorem ensure_eq_error_iff {p : Prop} [Decidable p] {e' : ε} : ensure p e = .error e' ↔ ¬p ∧ e' = e := by
  by_cases h : p <;> simp [ensure, h, eq_comm]

theorem checked_ok (a : α) : (liftM (.ok a : Decimal.Checked α) : Faultable α) = .ok a := rfl

theorem checked_error (c : Decimal.ArithmeticFault) :
    (liftM (.error c : Decimal.Checked α) : Faultable α) = .error (.arithmetic c) := rfl

theorem checked_eq_ok_iff {x : Decimal.Checked α} {a : α} : (liftM x : Faultable α) = .ok a ↔ x = .ok a :=
  mapError_eq_ok_iff

theorem checked_eq_error_iff {x : Decimal.Checked α} {f : Fault} :
    (liftM x : Faultable α) = .error f ↔ ∃ c, x = .error c ∧ f = .arithmetic c := by
  cases x <;> simp [checked_ok, checked_error, eq_comm]

theorem exists_of_isOk (h : x.isOk = true) : ∃ a, x = .ok a := by
  cases x with
  | ok a => exact ⟨a, rfl⟩
  | error e => cases h

theorem exists_of_ne_error (h : ∀ e, x ≠ .error e) : ∃ a, x = .ok a := by
  cases x with
  | ok a => exact ⟨a, rfl⟩
  | error e => exact absurd rfl (h e)

theorem eq_ok_of_mem_toOption {a : α} (h : a ∈ x.toOption) : x = .ok a := by
  cases x with
  | ok b =>
    cases h
    rfl
  | error e => cases h

end Except

/-- The state that a computation leaves, whether it fails or not. -/
def after (x : EStateM ε σ α) (s : σ) : σ :=
  match x s with
  | .ok _ t => t
  | .error _ t => t

section State

variable {x : EStateM ε σ α} {f : α → EStateM ε σ β} {s t : σ} {a : α} {b : β} {e : ε}

/-- A computation that answers leaves a state. -/
theorem exists_of_isSome (h : (x.run' s).isSome = true) : ∃ a t, x s = .ok a t := by
  cases hx : x s with
  | ok a t => exact ⟨a, t, rfl⟩
  | error e t =>
    have hn : x.run' s = none := by
      unfold EStateM.run' EStateM.run
      rw [hx]
    rw [hn] at h
    cases h

theorem eq_ok_of_mem_run' (h : a ∈ x.run' s) : x s = .ok a (after x s) := by
  obtain ⟨a', t, ht⟩ := exists_of_isSome (Option.isSome_of_mem h)
  unfold EStateM.run' EStateM.run at h
  unfold after
  rw [ht] at h ⊢
  cases h
  rfl

theorem after_of_ok (h : x s = .ok a t) : after x s = t := by
  unfold after
  rw [h]

theorem after_of_error (h : x s = .error e t) : after x s = t := by
  unfold after
  rw [h]

/-- A sequence goes on from where its first part left the state, unless that failed. -/
theorem after_bind : after (x >>= f) s = match x s with
    | .ok a t => after (f a) t
    | .error _ t => t := by
  unfold after
  simp only [bind, EStateM.bind]
  cases x s <;> rfl

/-- What follows does not matter if it leaves every state alone. -/
theorem after_bind_of_still (hf : ∀ a t, after (f a) t = t) : after (x >>= f) s = after x s := by
  rw [after_bind]
  unfold after at *
  cases x s with
  | ok a t => exact hf a t
  | error e t => rfl

theorem run_bind_of_ok (h : x s = .ok a t) : (x >>= f) s = f a t := by
  simp only [bind, EStateM.bind, h]

theorem run_bind_eq_ok_iff : (x >>= f) s = .ok b t ↔ ∃ a u, x s = .ok a u ∧ f a u = .ok b t := by
  simp only [bind, EStateM.bind]
  cases x s with
  | ok a u => exact ⟨fun h => ⟨a, u, rfl, h⟩, by rintro ⟨_, _, ⟨⟩, h⟩; exact h⟩
  | error e u => simp

theorem run_bind_eq_error_iff :
    (x >>= f) s = .error e t ↔ x s = .error e t ∨ ∃ a u, x s = .ok a u ∧ f a u = .error e t := by
  simp only [bind, EStateM.bind]
  cases x s with
  | ok a u =>
    simp only [reduceCtorEq, false_or]
    exact ⟨fun h => ⟨a, u, rfl, h⟩, by rintro ⟨_, _, ⟨⟩, h⟩; exact h⟩
  | error e u => simp

theorem run_map_eq_ok_iff {g : α → β} : (g <$> x) s = .ok b t ↔ ∃ a, x s = .ok a t ∧ g a = b := by
  simp only [Functor.map, EStateM.map]
  cases x s with
  | ok a u => exact ⟨by rintro ⟨⟩; exact ⟨a, rfl, rfl⟩, by rintro ⟨_, ⟨⟩, rfl⟩; rfl⟩
  | error e u => simp

theorem run_map_eq_error_iff {g : α → β} : (g <$> x) s = .error e t ↔ x s = .error e t := by
  simp only [Functor.map, EStateM.map]
  cases x s <;> simp

theorem run_pure_eq_ok_iff {a' : α} : (pure a : EStateM ε σ α) s = .ok a' t ↔ a = a' ∧ s = t := by
  simp [pure, EStateM.pure]

theorem run_pure_ne_error : (pure a : EStateM ε σ α) s ≠ .error e t := nofun

theorem run_get_bind {f : σ → EStateM ε σ β} : (get >>= f) s = f s s := rfl

theorem run_modify_bind {g : σ → σ} {f : Unit → EStateM ε σ β} : (modify g >>= f) s = f () (g s) := rfl

theorem run_modifyGet_bind {g : σ → α × σ} : (modifyGet g >>= f) s = f (g s).1 (g s).2 := rfl

theorem run_modify {g : σ → σ} : (modify g : EStateM ε σ Unit) s = .ok () (g s) := rfl

theorem run_modify_eq_ok_iff {g : σ → σ} {u : Unit} : (modify g : EStateM ε σ Unit) s = .ok u t ↔ g s = t := by
  rw [run_modify]
  simp

theorem run_modify_ne_error {g : σ → σ} : (modify g : EStateM ε σ Unit) s ≠ .error e t := nofun

end State

section Lift

variable {f : α → EStateM ε σ β} {g : α → EStateM Fault σ β} {s t : σ} {a : α} {b : β} {e : ε} {c : Fault}

theorem run_lift_ok : (liftM (.ok a : Except ε α) : EStateM ε σ α) s = .ok a s := rfl

theorem run_lift_error : (liftM (.error e : Except ε α) : EStateM ε σ α) s = .error e s := rfl

/-- A result without state succeeds and fails on its own, and leaves the state alone. -/
theorem run_lift_eq_ok_iff {x : Except ε α} : (liftM x : EStateM ε σ α) s = .ok a t ↔ x = .ok a ∧ s = t := by
  cases x <;> simp [run_lift_ok, run_lift_error]

theorem run_lift_eq_error_iff {x : Except ε α} :
    (liftM x : EStateM ε σ α) s = .error e t ↔ x = .error e ∧ s = t := by
  cases x <;> simp [run_lift_ok, run_lift_error]

theorem run_lift_bind_of_ok {x : Except ε α} (h : x = .ok a) : (liftM x >>= f) s = f a s := by
  rw [h]
  rfl

theorem run_lift_bind_eq_ok_iff {x : Except ε α} :
    (liftM x >>= f) s = .ok b t ↔ ∃ a, x = .ok a ∧ f a s = .ok b t := by
  simp only [run_bind_eq_ok_iff, run_lift_eq_ok_iff, and_assoc, exists_and_left, exists_eq_left']

theorem run_lift_bind_eq_error_iff {x : Except ε α} :
    (liftM x >>= f) s = .error e t ↔ (x = .error e ∧ s = t) ∨ ∃ a, x = .ok a ∧ f a s = .error e t := by
  simp only [run_bind_eq_error_iff, run_lift_eq_ok_iff, run_lift_eq_error_iff, and_assoc, exists_and_left,
    exists_eq_left']

theorem lift_checked (x : Decimal.Checked α) :
    (liftM x : EStateM Fault σ α) = liftM (liftM x : Faultable α) := rfl

theorem after_checked (x : Decimal.Checked α) : after (liftM x : EStateM Fault σ α) s = s := by
  cases x <;> rfl

theorem run_checked_eq_ok_iff {x : Decimal.Checked α} :
    (liftM x : EStateM Fault σ α) s = .ok a t ↔ x = .ok a ∧ s = t := by
  rw [lift_checked, run_lift_eq_ok_iff, checked_eq_ok_iff]

theorem run_checked_eq_error_iff {x : Decimal.Checked α} :
    (liftM x : EStateM Fault σ α) s = .error c t ↔ (∃ k, x = .error k ∧ c = .arithmetic k) ∧ s = t := by
  rw [lift_checked, run_lift_eq_error_iff, checked_eq_error_iff]

theorem run_checked_bind_of_ok {x : Decimal.Checked α} (h : x = .ok a) : (liftM x >>= g) s = g a s := by
  rw [h]
  rfl

theorem run_checked_bind_eq_ok_iff {x : Decimal.Checked α} :
    (liftM x >>= g) s = .ok b t ↔ ∃ a, x = .ok a ∧ g a s = .ok b t := by
  simp only [run_bind_eq_ok_iff, run_checked_eq_ok_iff, and_assoc, exists_and_left, exists_eq_left']

theorem run_checked_bind_eq_error_iff {x : Decimal.Checked α} : (liftM x >>= g) s = .error c t ↔
    ((∃ k, x = .error k ∧ c = .arithmetic k) ∧ s = t) ∨ ∃ a, x = .ok a ∧ g a s = .error c t := by
  simp only [run_bind_eq_error_iff, run_checked_eq_ok_iff, run_checked_eq_error_iff, and_assoc, exists_and_left,
    exists_eq_left']

end Lift
end OutcomeMarket

import OutcomeMarket.Proofs.Computation

/-! Computations that cannot tell two states apart. Started in states that are related, they fail together or come to
the same result, and leave states that are related again. -/
namespace OutcomeMarket

variable {ε σ α β : Type}

/-- Two results that are the same but for the states, which are related. -/
inductive AgreeIn (E : σ → σ → Prop) : EStateM.Result ε σ α → EStateM.Result ε σ α → Prop where
  | ok {a : α} {s t : σ} (h : E s t) : AgreeIn E (.ok a s) (.ok a t)
  | error {e : ε} {s t : σ} (h : E s t) : AgreeIn E (.error e s) (.error e t)

/-- A computation that goes the same way from related states and leaves related states. -/
def Respects (E : σ → σ → Prop) (x : EStateM ε σ α) : Prop := ∀ s t, E s t → AgreeIn E (x s) (x t)

variable {E : σ → σ → Prop} {x : EStateM ε σ α} {f : α → EStateM ε σ β}

theorem respects_pure (a : α) : Respects E (pure a : EStateM ε σ α) := fun _ _ h => .ok h

theorem respects_throw (e : ε) : Respects E (throw e : EStateM ε σ α) := fun _ _ h => .error h

theorem respects_lift (y : Except ε α) : Respects E (liftM y : EStateM ε σ α) := by
  cases y with
  | ok a => exact respects_pure a
  | error e => exact respects_throw e

theorem respects_modify {g : σ → σ} (hg : ∀ s t, E s t → E (g s) (g t)) :
    Respects E (modify g : EStateM ε σ Unit) := fun s t h => .ok (hg s t h)

theorem Respects.bind (hx : Respects E x) (hf : ∀ a, Respects E (f a)) : Respects E (x >>= f) := by
  intro s t h
  have hs := hx s t h
  simp only [Bind.bind, EStateM.bind]
  generalize x s = r at hs
  generalize x t = r' at hs
  cases hs with
  | ok h => exact hf _ _ _ h
  | error h => exact .error h

/-- A look at the state, of which only what related states share is used. -/
theorem respects_get_bind {f : σ → EStateM ε σ β} (hf : ∀ s t, E s t → f s = f t ∧ Respects E (f s)) :
    Respects E (get >>= f) := by
  intro s t h
  obtain ⟨hsame, hs⟩ := hf s t h
  rw [run_get_bind, run_get_bind, ← hsame]
  exact hs s t h

/-- What follows has to respect the states only for a result that there is. -/
theorem respects_lift_bind {y : Except ε α} (hf : ∀ a, y = .ok a → Respects E (f a)) :
    Respects E (liftM y >>= f) := by
  cases y with
  | ok a => exact hf a rfl
  | error e => exact fun _ _ h => .error h

theorem respects_checked {y : Decimal.Checked α} {E : σ → σ → Prop} : Respects E (liftM y : EStateM Fault σ α) :=
  respects_lift (liftM y : Faultable α)

theorem Respects.map (hx : Respects E x) (g : α → β) : Respects E (g <$> x) := by
  rw [← bind_pure_comp]
  exact hx.bind fun a => respects_pure (g a)

theorem Respects.discard (hx : Respects E x) : Respects E (Functor.discard x) := hx.map _

/-- Results that can be told apart through a function are the same if what it makes of them is. -/
theorem Respects.of_map {g : α → β} (hg : Function.Injective g) (hx : Respects E (g <$> x)) : Respects E x := by
  intro s t h
  have hs := hx s t h
  generalize hr : (g <$> x) s = r at hs
  generalize hr' : (g <$> x) t = r' at hs
  cases hs with
  | ok h =>
    obtain ⟨a, ha, rfl⟩ := run_map_eq_ok_iff.1 hr
    obtain ⟨a', ha', hsame⟩ := run_map_eq_ok_iff.1 hr'
    obtain rfl := hg hsame
    rw [ha, ha']
    exact .ok h
  | error h =>
    rw [run_map_eq_error_iff.1 hr, run_map_eq_error_iff.1 hr']
    exact .error h

theorem respects_forM {f : α → EStateM ε σ PUnit} (hf : ∀ a, Respects E (f a)) (as : List α) :
    Respects E (as.forM f) := by
  induction as with
  | nil => exact respects_pure _
  | cons a as ih => exact (hf a).bind fun _ => ih

/-- No computation can tell a state from itself. -/
theorem respects_eq (x : EStateM ε σ α) : Respects Eq x := by
  rintro s _ rfl
  cases x s with
  | ok a t => exact .ok rfl
  | error e t => exact .error rfl

end OutcomeMarket

import OutcomeMarket.Proofs.Order.Exclusion
import OutcomeMarket.Strategy.Program

/-! What happens to a session while a strategy runs an errand. Time passes, orders are cancelled, collected or decided;
whatever is done, it is done in strides, each of which writes the clock, or one order, or decides one order. -/
namespace OutcomeMarket
namespace Session

/-- One stride of time: the clock moves, an order is written anew without being decided by it, or an order is
decided. -/
inductive Stride (s : Session) : Session → Prop where
  | turned (now : ℕ) : Stride s { s with now := now }
  | rewritten {n : ℕ} {d d' : DelayedOrder} (f : InFlight) (hd : s.orders[n]? = some d) (ho : d'.order = d.order)
      (hv : d'.venue = d.venue) (hs : d'.stage = d.stage ∨ ¬ d.stage.IsDecision ∧ ¬ d'.stage.IsDecision) :
      Stride s { s with inFlight := f, orders := s.orders.setIfInBounds n d' }
  | fired {n : ℕ} {d : DelayedOrder} (held : Option String) (hd : s.orders[n]? = some d) (hp : d.stage = .pending) :
      Stride s (s.fire held n d)

abbrev Strides : Session → Session → Prop := Relation.ReflTransGen Stride

variable {s s' : Session} {n : ℕ} {d : DelayedOrder}

theorem strides_fireIfDue (held : Option String) (s : Session) (n : ℕ) : Strides s (fireIfDue held s n) := by
  unfold fireIfDue
  split
  · rename_i d hd
    split
    · rename_i h
      rw [Bool.and_eq_true, isPending_iff] at h
      exact .single (.fired held hd h.1)
    · exact .refl
  · exact .refl

theorem strides_dropIfAborting (s : Session) (n : ℕ) : Strides s (s.dropIfAborting n) := by
  obtain h | ⟨d, hd, hp, h⟩ := s.dropIfAborting_cases n
  · rw [h]
  · rw [h]
    exact .single (.rewritten _ hd rfl rfl (.inr ⟨hp ▸ id, id⟩))

/-- Strides for each of some numbers in turn. -/
theorem strides_foldl {f : Session → ℕ → Session} (hf : ∀ s n, Strides s (f s n)) (s : Session) (ns : List ℕ) :
    Strides s (ns.foldl f s) := by
  induction ns generalizing s with
  | nil => exact .refl
  | cons n ns ih => exact (hf s n).trans (ih _)

theorem strides_runUntil (held : Option String) (s : Session) (time : ℕ) : Strides s (s.runUntil held time) := by
  have hdropped : Strides s s.dropAborted := strides_foldl strides_dropIfAborting s _
  have hturned : Strides s { s.dropAborted with now := Nat.max s.now time } := hdropped.tail (.turned _)
  exact hturned.trans (strides_foldl (strides_fireIfDue held) _ _)

theorem strides_collect (hd : s.orders[n]? = some d) :
    Strides s { s with orders := s.orders.setIfInBounds n { d with collected := true } } :=
  .single (.rewritten s.inFlight hd rfl rfl (.inl rfl))

theorem strides_wait (held : Option String) (s : Session) (n : ℕ) : Strides s (s.wait held n).2 := by
  unfold wait
  cases hd : s.orders[n]? with
  | none => exact .refl
  | some d =>
    dsimp only
    by_cases hc : d.collected = true
    · rw [if_pos hc]
    · rw [if_neg hc]
      have hw : Strides s (if d.isLive then s.runUntil held (s.endOfWait d) else s) := by
        split
        · exact strides_runUntil held s _
        · exact .refl
      split
      · exact hw
      · rename_i d' hd'
        exact hw.trans (strides_collect hd')

theorem strides_abort (s : Session) (n : ℕ) : Strides s (s.abort n) := by
  unfold abort
  split
  · rename_i d hd
    split
    · rename_i h
      rw [Bool.and_eq_true, isPending_iff] at h
      exact .single (.rewritten s.inFlight hd rfl rfl (.inr ⟨h.1 ▸ id, id⟩))
    · exact .refl
  · exact .refl

end Session

/-- Whatever errand a strategy runs, its session goes in strides. -/
theorem Errand.strides (e : Errand) (held : Option String) (s : Session) : Session.Strides s (e.run held s).2 := by
  cases e with
  | wait n => exact Session.strides_wait held s n
  | abort n => exact Session.strides_abort s n
  | sleep ms => exact Session.strides_runUntil held s _

end OutcomeMarket

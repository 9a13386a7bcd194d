import OutcomeMarket.Proofs.Strategy.Recording

/-! What a program hands to its context: the metrics it emits, and its orders with the answers they got. The context
keeps the metrics in this order, with one of its own for each order that was dropped. -/
namespace OutcomeMarket

/-- One thing that goes through a context. -/
inductive Output where
  | emitted (metric : Metric)
  | answered (asset : String) (answer : Submission)

namespace Output

/-- What a context with this name keeps of it. -/
def metrics (id : String) : Output → List Metric
  | emitted m => [m]
  | answered asset .dropped => [.orderDropped id asset]
  | answered _ _ => []

/-- The metrics that the strategy made itself. -/
def own : Output → List Metric
  | emitted m => [m]
  | answered .. => []

/-- Whether this is an order for an asset that was dropped. -/
def isDropped (asset : String) : Output → Bool
  | answered other .dropped => other == asset
  | answered .. | emitted _ => false

end Output

namespace Program

variable {ν α : Type}

/-- What goes through the context when a program runs in a session, in order; up to a fault, if it meets one. -/
def outputs : Program ν α → Session → List Output
  | done _, _ | fault _, _ => []
  | look next, s => (next s).outputs s
  | operate op next, s =>
    match Session.onBroker op.run s with
    | .ok r s' => (next r).outputs s'
    | .error _ _ => []
  | submit o v locked next, s =>
    match Session.submit o v locked s with
    | .ok answer s' => .answered o.asset answer :: (next answer).outputs s'
    | .error _ _ => []
  | attend e held next, s => (next (e.run held s).1).outputs (e.run held s).2
  | emit m p, s => .emitted m :: p.outputs s
  | note _ p, s => p.outputs s

end Program

namespace Context

variable {c : Context}

/-- The context with the metrics of some outputs behind its own. -/
def keep (c : Context) (os : List Output) : Context :=
  { c with metrics := c.metrics ++ os.flatMap (Output.metrics c.id) }

theorem keep_nil (c : Context) : c.keep [] = c := by
  unfold keep
  rw [List.flatMap_nil, List.append_nil]

theorem keep_cons (c : Context) (o : Output) (os : List Output) : c.keep (o :: os) = (c.keep [o]).keep os := by
  simp [keep]

theorem emit_eq_keep (c : Context) (m : Metric) : c.emit m = c.keep [.emitted m] := rfl

theorem track_eq_keep (c : Context) (asset : String) (answer : Submission) :
    c.track asset answer = c.keep [.answered asset answer] := by
  cases answer
  case dropped => rfl
  all_goals simp [track, keep, Output.metrics]

end Context

/-- Nothing is lost on the way, also if the program ends in a fault. -/
theorem Program.context_after_run {ν α : Type} (p : Program ν α) (w : Workspace ν) :
    (after p.run w).context = w.context.keep (p.outputs w.session) := by
  obtain ⟨s, c, ks⟩ := w
  induction p generalizing s c ks with
  | done a => exact c.keep_nil.symm
  | fault k => exact c.keep_nil.symm
  | look next ih => exact ih _ s c ks
  | operate op next ih =>
    unfold after outputs
    cases h : Session.onBroker op.run s with
    | ok r s' =>
      rw [run_operate_of_ok h]
      exact ih r s' c ks
    | error k s' =>
      rw [run_operate_of_error h]
      exact c.keep_nil.symm
  | submit o v locked next ih =>
    unfold after outputs
    cases h : Session.submit o v locked s with
    | ok answer s' =>
      rw [run_submit_of_ok h, Context.track_eq_keep]
      exact (ih answer s' _ ks).trans (c.keep_cons _ _).symm
    | error k s' =>
      rw [run_submit_of_error h]
      exact c.keep_nil.symm
  | attend e held next ih => exact ih (e.run held s).1 (e.run held s).2 c ks
  | emit m p ih =>
    have hrest := ih s (c.emit m) ks
    rw [Context.emit_eq_keep] at hrest
    exact hrest.trans (c.keep_cons _ _).symm
  | note n p ih => exact ih s c (ks ++ [n])

end OutcomeMarket

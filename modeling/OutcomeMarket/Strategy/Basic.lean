import OutcomeMarket.Strategy.Program

/-! Strategies: a state, and a program for each thing they are shown. -/
namespace OutcomeMarket

/-- How a strategy presents itself. -/
structure StrategyMetadata where
  name : String
  version : String
  description : String
  deriving DecidableEq, Repr

/-- A strategy that is shown values of type ω and keeps a state of type σ. -/
structure Strategy (ν ω σ : Type) where
  metadata : StrategyMetadata
  react : σ → ω → Program ν (Except StrategyError Unit × σ)

/-- Errors that the market causes do not end a run. -/
def tolerate : Except StrategyError Unit → Except StrategyError Unit
  | .ok () => .ok ()
  | .error e => if e.isMarketCondition then .ok () else .error e

/-- How a run ends before its time. -/
inductive Halt where
  | fault (cause : Fault)
  | error (cause : StrategyError)
  deriving DecidableEq, Repr

/-- A result, or the halt it ended in. -/
abbrev Halting := Except Halt

instance : MonadLift Faultable Halting := ⟨fun x => x.mapError Halt.fault⟩

instance : MonadLift (Except StrategyError) Halting := ⟨fun x => x.mapError Halt.error⟩

end OutcomeMarket

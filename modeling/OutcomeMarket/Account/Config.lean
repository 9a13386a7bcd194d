import OutcomeMarket.Decimal.Text
import OutcomeMarket.Ensure

/-! Pricing and latency of a simulated broker. -/
namespace OutcomeMarket

structure BrokerConfig where
  /-- Cash at the start of a run -/
  startingCash : Decimal
  /-- What every fill is charged against the trader, per share -/
  spreadPenalty : Decimal
  /-- The part of the best level that one fill may take -/
  maxParticipationRate : Decimal
  /-- The part of a settled profit that is withheld -/
  resolutionFeeRate : Decimal
  /-- Time from submission to execution; zero means at once -/
  latencyMillis : Nat
  deriving DecidableEq, Repr

/-- Why a configuration is refused. -/
inductive BrokerConfig.Problem where
  | startingCash (x : Decimal)
  | spreadPenalty (x : Decimal)
  | maxParticipationRate (x : Decimal)
  | resolutionFeeRate (x : Decimal)
  deriving DecidableEq, Repr

def BrokerConfig.Problem.message : BrokerConfig.Problem → String
  | startingCash x => s!"starting_cash {x} must not be negative"
  | spreadPenalty x => s!"spread_penalty {x} must be in [0, 1)"
  | maxParticipationRate x => s!"max_participation_rate {x} must be in (0, 1]"
  | resolutionFeeRate x => s!"resolution_fee_rate {x} must be in [0, 1]"

namespace BrokerConfig

/-- A thousand dollars, a penalty of one and a half cents, all of the level, two per cent, no latency. -/
def standard : BrokerConfig where
  startingCash := .lit 1000 0
  spreadPenalty := .lit 15 3
  maxParticipationRate := .lit 100 2
  resolutionFeeRate := .lit 2 2
  latencyMillis := 0

instance : Inhabited BrokerConfig := ⟨standard⟩

def withStartingCash (cash : Decimal) : BrokerConfig := { standard with startingCash := cash }

/-- The ranges that a configuration has to keep. -/
structure Valid (c : BrokerConfig) : Prop where
  cash_nonneg : Decimal.zero ≤ c.startingCash
  penalty_nonneg : Decimal.zero ≤ c.spreadPenalty
  penalty_lt_one : c.spreadPenalty < Decimal.one
  rate_pos : Decimal.zero < c.maxParticipationRate
  rate_le_one : c.maxParticipationRate ≤ Decimal.one
  fee_nonneg : Decimal.zero ≤ c.resolutionFeeRate
  fee_le_one : c.resolutionFeeRate ≤ Decimal.one

/-- The first range that is not kept, in the order of the fields. -/
def validate (c : BrokerConfig) : Except Problem Unit := do
  ensure (.zero ≤ c.startingCash) (.startingCash c.startingCash)
  ensure (.zero ≤ c.spreadPenalty ∧ c.spreadPenalty < .one) (.spreadPenalty c.spreadPenalty)
  ensure (.zero < c.maxParticipationRate ∧ c.maxParticipationRate ≤ .one)
    (.maxParticipationRate c.maxParticipationRate)
  ensure (.zero ≤ c.resolutionFeeRate ∧ c.resolutionFeeRate ≤ .one)
    (.resolutionFeeRate c.resolutionFeeRate)

/-- Validation lets exactly the configurations through that keep all ranges. -/
theorem validate_eq_ok_iff {c : BrokerConfig} : c.validate = .ok () ↔ c.Valid := by
  simp only [validate, ensure_bind_eq_ok_iff, ensure_eq_ok_iff]
  constructor
  · rintro ⟨hc, ⟨hp, hp'⟩, ⟨hr, hr'⟩, hf, hf'⟩
    exact ⟨hc, hp, hp', hr, hr', hf, hf'⟩
  · intro h
    exact ⟨h.cash_nonneg, ⟨h.penalty_nonneg, h.penalty_lt_one⟩, ⟨h.rate_pos, h.rate_le_one⟩,
      h.fee_nonneg, h.fee_le_one⟩

end BrokerConfig
end OutcomeMarket

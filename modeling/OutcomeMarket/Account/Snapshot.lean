import OutcomeMarket.Account.Operation

/-! A view of an account at one point in time, and the ratios that are read off it. -/
namespace OutcomeMarket

structure Snapshot where
  time : Instant
  startingCash : Decimal
  cash : Decimal
  portfolioValue : Decimal
  peakEquity : Decimal
  maxDrawdown : Decimal
  tradesExecuted : Nat
  actions : Nat
  wins : Nat
  losses : Nat
  openPositions : Nat
  deriving DecidableEq, Repr

/-- The account as it stands. -/
def Broker.snapshot (b : Broker) : Decimal.Checked Snapshot := do
  let value ← b.value
  return {
    time := b.clock
    startingCash := b.config.startingCash
    cash := b.cash
    portfolioValue := value
    peakEquity := b.peakEquity
    maxDrawdown := b.maxDrawdown
    tradesExecuted := b.tradesExecuted
    actions := b.actions
    wins := b.wins
    losses := b.losses
    openPositions := b.ledger.openAssets.length }

namespace Snapshot

/-- Counters have 64 bits. -/
abbrev counterLimit : Nat := 18446744073709551616

/-- The part of wins among wins and losses, zero if there are none. -/
def winRate (s : Snapshot) : Faultable Decimal := do
  ensure (s.wins + s.losses < counterLimit) .counterOverflow
  if s.wins + s.losses = 0 then return .zero
  let rate ← (Decimal.ofNat s.wins).div (Decimal.ofNat (s.wins + s.losses))
  return rate

/-- What was gained since the start. -/
def totalReturn (s : Snapshot) : Decimal.Checked Decimal := s.portfolioValue.sub s.startingCash

/-- The gain in per cent of the starting cash, zero if there was none. -/
def returnPercent (s : Snapshot) : Decimal.Checked Decimal := do
  if s.startingCash.isZero then return .zero
  let gain ← s.totalReturn
  let ratio ← gain.div s.startingCash
  ratio.mul .hundred

end Snapshot
end OutcomeMarket

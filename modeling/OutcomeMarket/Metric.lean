import OutcomeMarket.Account.Snapshot

/-! Measurements that a run hands to whoever watches it. -/
namespace OutcomeMarket

inductive MetricKind where
  | counter
  | gauge
  deriving DecidableEq, Repr

namespace MetricKind

def name : MetricKind → String
  | counter => "Counter"
  | gauge => "Gauge"

/-- The kind with this name. -/
def ofName? (s : String) : Option MetricKind := [counter, gauge].find? fun k => k.name == s

end MetricKind

/-- One measurement. A metric without a time was taken at the moment it was made. -/
structure Metric where
  time : Option Instant
  source : String
  kind : MetricKind
  name : String
  value : Decimal
  labels : TextMap String

namespace Metric

def cashUsd : String := "broker.cash_usd"
def portfolioValueUsd : String := "broker.portfolio_value_usd"
def peakEquityUsd : String := "broker.peak_equity_usd"
def maxDrawdown : String := "broker.max_drawdown"
def winRate : String := "broker.win_rate"
def openPositions : String := "broker.open_positions"
def tradesExecuted : String := "broker.trades_executed"
def actions : String := "broker.actions"
def ordersDropped : String := "driver.orders_dropped"
def bookEntriesSkipped : String := "driver.book_entries_skipped"

def counter (source name : String) (value : Decimal) : Metric :=
  ⟨none, source, .counter, name, value, .empty⟩

def gauge (source name : String) (value : Decimal) : Metric :=
  ⟨none, source, .gauge, name, value, .empty⟩

/-- Set a label; the last value for a key counts. -/
def withLabel (m : Metric) (key value : String) : Metric :=
  { m with labels := m.labels.insert key value }

/-- Stamp a metric with a time. -/
def atTime (m : Metric) (t : Instant) : Metric := { m with time := some t }

/-- What a snapshot of an account says. -/
def ofSnapshot (source : String) (s : Snapshot) : Faultable (List Metric) := do
  let rate ← s.winRate
  return [
    (gauge source cashUsd s.cash).atTime s.time,
    (gauge source portfolioValueUsd s.portfolioValue).atTime s.time,
    (gauge source peakEquityUsd s.peakEquity).atTime s.time,
    (gauge source maxDrawdown s.maxDrawdown).atTime s.time,
    (gauge source winRate rate).atTime s.time,
    (gauge source openPositions (.ofNat s.openPositions)).atTime s.time,
    (counter source tradesExecuted (.ofNat s.tradesExecuted)).atTime s.time,
    (counter source actions (.ofNat s.actions)).atTime s.time]

/-- An order that was dropped because another one was in flight. -/
def orderDropped (source asset : String) : Metric :=
  (counter source ordersDropped .one).withLabel "asset" asset

/-- Book entries that were skipped as malformed. -/
def entriesSkipped (source asset : String) (count : Nat) : Metric :=
  (counter source bookEntriesSkipped (.ofNat count)).withLabel "asset" asset

end Metric
end OutcomeMarket

import OutcomeMarket.Account.Config
import OutcomeMarket.Account.Ledger

/-! The account of one simulation run: cash, holdings, history, counters, the extremes of its equity,
and the prices at which holdings are valued. An operation is a state transition that may fault; after a
fault the account is as the operation had left it by then. -/
namespace OutcomeMarket

/-- The order in which an account visits its holdings to value them. It leaves none out and visits none
twice, but what it is, is not known: it may differ from account to account, and change when holdings do. -/
structure Visiting where
  order : List (String × PositionPair) → List (String × PositionPair)
  perm (es : List (String × PositionPair)) : (order es).Perm es

namespace Visiting

/-- Oldest holdings first. -/
def oldestFirst : Visiting := ⟨id, .refl⟩

/-- Newest holdings first. -/
def newestFirst : Visiting := ⟨List.reverse, List.reverse_perm⟩

instance : Inhabited Visiting := ⟨oldestFirst⟩

end Visiting

structure Broker where
  config : BrokerConfig
  cash : Decimal
  ledger : Ledger
  /-- The history, oldest record first -/
  trades : List Trade
  /-- Sales and settled markets -/
  tradesExecuted : Nat
  /-- Buys and sales -/
  actions : Nat
  wins : Nat
  losses : Nat
  peakEquity : Decimal
  maxDrawdown : Decimal
  clock : Instant
  /-- The last known YES price of each asset -/
  prices : TextMap Decimal
  visiting : Visiting

/-- Operations on an account. -/
abbrev BrokerM := EStateM Fault Broker

namespace Broker

/-- An account with its starting cash and nothing else. -/
def new (config : BrokerConfig) (visiting : Visiting) : Broker where
  config := config
  cash := config.startingCash
  ledger := .empty
  trades := []
  tradesExecuted := 0
  actions := 0
  wins := 0
  losses := 0
  peakEquity := config.startingCash
  maxDrawdown := .zero
  clock := .epoch
  prices := .empty
  visiting := visiting

instance : Inhabited Broker := ⟨new .standard default⟩

def position (b : Broker) (asset : String) (side : OutcomeSide) : Position := b.ledger.get asset side

/-- Every asset with a holding, sorted, with both its sides. -/
def openPositions (b : Broker) : List (String × PositionPair) :=
  b.ledger.openAssets.map fun asset => (asset, b.ledger.pair asset)

def tradesFor (b : Broker) (asset : String) : List Trade := b.trades.filter (·.asset == asset)

def lastKnownPrice (b : Broker) (asset : String) : Option Decimal := b.prices.find? asset

/-- The value of a NO share of an asset without a known price. -/
def unknownNoValuation : Decimal := .lit 50 2

/-- Add the value of one asset: YES shares at the last price, or nothing if it is unknown, NO shares
at what it leaves of a dollar. -/
def addHolding (last : Option Decimal) (value : Decimal) (pair : PositionPair) :
    Decimal.Checked Decimal := do
  let value ←
    if pair.yes.isFlat then pure value
    else do
      let worth ← pair.yes.shares.mul (last.getD .zero)
      value.add worth
  if pair.no.isFlat then pure value
  else do
    let price ← match last with
      | some p => Decimal.one.sub p
      | none => pure unknownNoValuation
    let worth ← pair.no.shares.mul price
    value.add worth

/-- Cash and the holdings of an entry list at their last known prices, added in its order. -/
def valueAlong (b : Broker) (es : List (String × PositionPair)) : Decimal.Checked Decimal :=
  es.foldlM (fun v e => addHolding (b.prices.find? e.1) v e.2) b.cash

/-- Cash and all holdings at their last known prices. -/
def value (b : Broker) : Decimal.Checked Decimal := b.valueAlong (b.visiting.order b.ledger.pairs.entries)

/-- Append a record at the current time. -/
def record (asset : String) (kind : TradeKind) (price shares value fee : Decimal) : BrokerM Unit :=
  modify fun b => { b with trades := b.trades ++ [⟨asset, b.clock, kind, price, shares, value, fee⟩] }

/-- Count an exit as a win or a loss; a tie is a loss. -/
def classify (exit entry : Decimal) : BrokerM Unit :=
  modify fun b =>
    if entry < exit then { b with wins := b.wins + 1 } else { b with losses := b.losses + 1 }

/-- The fall from the peak as a part of it; none while there is no positive peak. -/
def drawdown (peak equity : Decimal) : Decimal.Checked Decimal :=
  if .zero < peak then do
    let drop ← peak.sub equity
    drop.div peak
  else pure .zero

/-- Value the account and keep the extremes: the highest equity, and the deepest fall from it. -/
def markEquity : BrokerM Decimal := do
  let equity ← (← get).value
  modify fun b => { b with peakEquity := if b.peakEquity < equity then equity else b.peakEquity }
  let fall ← drawdown (← get).peakEquity equity
  modify fun b => { b with maxDrawdown := if b.maxDrawdown < fall then fall else b.maxDrawdown }
  return equity

def setPrice (asset : String) (price : Decimal) : BrokerM Unit :=
  modify fun b => { b with prices := b.prices.insert asset price }

def setClock (now : Instant) : BrokerM Unit := modify fun b => { b with clock := now }

end Broker
end OutcomeMarket

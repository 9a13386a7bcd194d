import OutcomeMarket.Replay.Candle
import OutcomeMarket.Strategy.Basic

/-! Replaying the ticks of one market through a strategy, with a fresh account. At each tick the clock
and the price move first, then the strategy acts, then equity is marked. In the end the market is
settled at its outcome, or what is left of the position is sold at the last price. -/
namespace OutcomeMarket

structure BacktestConfig where
  broker : BrokerConfig
  /-- Sell what is left at the last price -/
  liquidateAtEnd : Bool
  /-- Settle at this outcome instead, in YES terms -/
  resolutionPrice : Option Decimal
  deriving DecidableEq, Repr

namespace BacktestConfig

def standard : BacktestConfig := ⟨.standard, true, none⟩

def validate (c : BacktestConfig) : Except StrategyError Unit := do
  c.broker.validate.mapError fun p => .execution (.configuration p.message)
  match c.resolutionPrice with
  | some p =>
    ensure (.zero ≤ p ∧ p ≤ .one) (.configuration s!"resolution_price {p} must be in [0, 1]")
  | none => return ()

end BacktestConfig

/-- A strategy that can be replayed: shown each tick, or each candle of a timeframe. -/
inductive ReplayStrategy (ν σ : Type) where
  | ticks (strategy : Strategy ν Tick σ)
  | candles (timeframe : Duration) (strategy : Strategy ν Candle σ)

namespace ReplayStrategy

variable {ν σ : Type}

def metadata : ReplayStrategy ν σ → StrategyMetadata
  | ticks s => s.metadata
  | candles _ s => s.metadata

/-- The candle in the making; a timeframe has to be positive. -/
def aggregator : ReplayStrategy ν σ → Except StrategyError (Option CandleAggregator)
  | ticks _ => .ok none
  | candles timeframe s =>
    if timeframe ≤ .zero then
      .error (.invalidParameter
        s!"{s.metadata.name} candle timeframe must be positive, got {timeframe}")
    else .ok (some (.new timeframe))

end ReplayStrategy

/-- What a replay has come to. -/
structure Replay (ν σ : Type) where
  workspace : Workspace ν
  state : σ
  aggregator : Option CandleAggregator
  /-- Equity at each tick -/
  curve : List (Instant × Decimal)

abbrev ReplayM (ν σ : Type) := EStateM Halt (Replay ν σ)

structure BacktestResult where
  asset : String
  strategy : String
  startingCapital : Decimal
  finalCapital : Decimal
  totalReturn : Decimal
  totalReturnPercent : Decimal
  maxDrawdown : Decimal
  winRate : Decimal
  wins : Nat
  losses : Nat
  /-- Sales and settlements -/
  trades : Nat
  actions : Nat
  ledger : List Trade
  equityCurve : List (Instant × Decimal)
  deriving DecidableEq, Repr

namespace Replay

variable {ν σ ω : Type}

/-- Work on the workspace of a replay. -/
def onWorkspace {α : Type} (x : WorkM ν α) : ReplayM ν σ α := fun r =>
  match x r.workspace with
  | .ok a w => .ok a { r with workspace := w }
  | .error f w => .error (.fault f) { r with workspace := w }

def onBroker {α : Type} (x : BrokerM α) : ReplayM ν σ α :=
  onWorkspace (Workspace.onSession (Session.onBroker x))

/-- Show something to the strategy. -/
def present (s : Strategy ν ω σ) (x : ω) : ReplayM ν σ Unit := do
  let (answer, state) ← onWorkspace (s.react (← get).state x).run
  modify fun r => { r with state := state }
  (tolerate answer : Except StrategyError Unit)

/-- Push a tick into the candle in the making; the answer is the candle that it closed. -/
def aggregate (t : Tick) : ReplayM ν σ (Option Candle) := do
  match (← get).aggregator with
  | none => return none
  | some a =>
    let (closed, a) ← (a.push t : Faultable (Option Candle × CandleAggregator))
    modify fun r => { r with aggregator := some a }
    return closed

/-- Equity goes onto the curve. -/
def mark (time : Instant) : ReplayM ν σ Unit := do
  let equity ← onBroker Broker.markEquity
  modify fun r => { r with curve := r.curve ++ [(time, equity)] }

/-- Hand a tick to the strategy, or the candle that it closed. -/
def dispatch (t : Tick) : ReplayStrategy ν σ → ReplayM ν σ Unit
  | .ticks s => present s t
  | .candles _ s => do
    match ← aggregate t with
    | some c => present s c
    | none => return ()

/-- One tick. -/
def step (s : ReplayStrategy ν σ) (t : Tick) : ReplayM ν σ Unit := do
  onBroker (Broker.setClock t.time)
  onBroker (Broker.setPrice t.asset t.price)
  dispatch t s
  mark t.time

/-- Hand out the last candle, complete or not. -/
def flush : ReplayStrategy ν σ → ReplayM ν σ Unit
  | .ticks _ => return ()
  | .candles _ s => do
    match (← get).aggregator with
    | none => return ()
    | some a =>
      let (closed, a) := a.flush
      modify fun r => { r with aggregator := some a }
      match closed with
      | some c => present s c
      | none => return ()

/-- Close the market as the configuration says. -/
def settle (c : BacktestConfig) (asset : String) (price : Decimal) : ReplayM ν σ Unit :=
  match c.resolutionPrice with
  | some outcome => discard (onBroker (Broker.resolve asset outcome))
  | none => if c.liquidateAtEnd then discard (onBroker (Broker.liquidate asset price)) else pure ()

/-- What there is to say about a finished replay. -/
def result (asset strategy : String) (b : Broker) (curve : List (Instant × Decimal)) :
    Faultable BacktestResult := do
  let s ← b.snapshot
  let totalReturn ← s.totalReturn
  let percent ← s.returnPercent
  let rate ← s.winRate
  return {
    asset := asset
    strategy := strategy
    startingCapital := s.startingCash
    finalCapital := s.portfolioValue
    totalReturn := totalReturn
    totalReturnPercent := percent
    maxDrawdown := s.maxDrawdown
    winRate := rate
    wins := s.wins
    losses := s.losses
    trades := s.tradesExecuted
    actions := s.actions
    ledger := b.trades
    equityCurve := curve }

/-- All ticks, the last candle and the settlement. -/
def runTicks (c : BacktestConfig) (s : ReplayStrategy ν σ) (first : Tick) (rest : List Tick) :
    ReplayM ν σ BacktestResult := do
  (first :: rest).forM (step s)
  flush s
  let last := rest.getLastD first
  settle c first.asset last.price
  mark last.time
  let r ← get
  (result first.asset s.metadata.name r.workspace.session.broker r.curve : Faultable BacktestResult)

/-- A replay before its first tick. -/
def start (c : BacktestConfig) (visiting : Visiting) (s : ReplayStrategy ν σ) (state : σ)
    (aggregator : Option CandleAggregator) (journal : List ν) : Replay ν σ where
  workspace := {
    session := .new (.new c.broker visiting) c.broker.latencyMillis
    context := .new s!"backtest:{s.metadata.name}"
    journal := journal }
  state := state
  aggregator := aggregator
  curve := []

end Replay

/-- A result and the journal that was written on the way to it. -/
abbrev Journaled (ν α : Type) := Halting α × List ν

/-- Replay one market. The journal goes on from the one given. -/
def runMarket {ν σ : Type} (c : BacktestConfig) (visiting : Visiting) (s : ReplayStrategy ν σ)
    (state : σ) (ticks : List Tick) (journal : List ν) : Journaled ν BacktestResult :=
  match ticks with
  | [] => (.error (.error (.insufficientData "No historical data provided")), journal)
  | first :: rest =>
    match (do Tick.validateStream ticks; s.aggregator : Except StrategyError (Option CandleAggregator)) with
    | .error e => (.error (.error e), journal)
    | .ok aggregator =>
      match Replay.runTicks c s first rest (Replay.start c visiting s state aggregator journal) with
      | .ok result r => (.ok result, r.workspace.journal)
      | .error h r => (.error h, r.workspace.journal)

end OutcomeMarket

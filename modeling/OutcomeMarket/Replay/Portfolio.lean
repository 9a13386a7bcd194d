import OutcomeMarket.Replay.Backtest

/-! Replaying several markets one after the other. Each has an account and a strategy of its own, so
that none of them sees another; in the end their results are added up. The accounts need not visit their
holdings in the same order. -/
namespace OutcomeMarket

/-- Ticks under the name of the asset they are said to belong to. -/
structure Market where
  asset : String
  ticks : List Tick
  deriving DecidableEq, Repr

structure PortfolioResult where
  startingCapital : Decimal
  endingCapital : Decimal
  totalReturnPercent : Decimal
  trades : Nat
  wins : Nat
  losses : Nat
  winRate : Decimal
  ledger : List Trade
  markets : List BacktestResult
  deriving DecidableEq, Repr

namespace PortfolioResult

/-- What was gained, in per cent of what was put in; zero if that was nothing. -/
def gainPercent (starting ending : Decimal) : Decimal.Checked Decimal := do
  if starting.isZero then return .zero
  let gain ← ending.sub starting
  let ratio ← gain.div starting
  ratio.mul .hundred

/-- The part of wins among wins and losses; zero if there are none. -/
def rate (wins losses : Nat) : Decimal.Checked Decimal :=
  if wins + losses = 0 then .ok .zero
  else (Decimal.ofNat wins).div (Decimal.ofNat (wins + losses))

/-- A count added up over the markets. -/
def total (count : BacktestResult → Nat) (rs : List BacktestResult) : Nat :=
  rs.foldl (fun n r => n + count r) 0

/-- The sum of the results of markets that were given the same cash each. -/
def ofMarkets (allocation : Decimal) (rs : List BacktestResult) : Decimal.Checked PortfolioResult := do
  let starting ← allocation.mul (Decimal.ofNat rs.length)
  let ending ← Decimal.sum (rs.map BacktestResult.finalCapital)
  let percent ← gainPercent starting ending
  let wins := total BacktestResult.wins rs
  let losses := total BacktestResult.losses rs
  let winRate ← rate wins losses
  return {
    startingCapital := starting
    endingCapital := ending
    totalReturnPercent := percent
    trades := total BacktestResult.trades rs
    wins := wins
    losses := losses
    winRate := winRate
    ledger := rs.flatMap BacktestResult.ledger
    markets := rs }

end PortfolioResult

/-- What a portfolio run leaves behind, whether it ended well or not. -/
structure PortfolioRun (ν : Type) where
  journal : List ν
  /-- The assets for which a strategy was made -/
  made : List String

namespace PortfolioRun

variable {ν σ : Type}

abbrev PortfolioM (ν : Type) := EStateM Halt (PortfolioRun ν)

/-- Replay one market, unless it has no ticks. `visits` tells how the first, second and so on account
visits its holdings. -/
def market (c : BacktestConfig) (visits : Nat → Visiting) (make : String → ReplayStrategy ν σ × σ)
    (m : Market) : PortfolioM ν (Option BacktestResult) := do
  match m.ticks with
  | [] => return none
  | first :: _ =>
    if first.asset ≠ m.asset then
      throw (.error (.marketNotFound s!"{m.asset} (ticks supplied are for {first.asset})"))
    let (strategy, state) := make m.asset
    let run ← get
    let (result, journal) := runMarket c (visits run.made.length) strategy state m.ticks run.journal
    modify fun r => { r with journal := journal, made := r.made ++ [m.asset] }
    some <$> (result : Halting BacktestResult)

/-- Replay all markets. The first one that fails ends the run. -/
def run (c : BacktestConfig) (visits : Nat → Visiting) (make : String → ReplayStrategy ν σ × σ)
    (markets : List Market) : PortfolioM ν PortfolioResult := do
  let results ← markets.mapM (market c visits make)
  (PortfolioResult.ofMarkets c.broker.startingCash (results.filterMap id) :
    Decimal.Checked PortfolioResult)

end PortfolioRun

/-- Replay several markets from an empty journal. -/
def runPortfolio {ν σ : Type} (c : BacktestConfig) (visits : Nat → Visiting)
    (make : String → ReplayStrategy ν σ × σ) (markets : List Market) :
    Halting PortfolioResult × PortfolioRun ν :=
  match PortfolioRun.run c visits make markets ⟨[], []⟩ with
  | .ok result r => (.ok result, r)
  | .error h r => (.error h, r)

end OutcomeMarket

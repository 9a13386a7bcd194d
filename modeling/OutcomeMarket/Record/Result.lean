import OutcomeMarket.Record.Account
import OutcomeMarket.Replay.Portfolio

/-! Results of replays in documents. -/
namespace OutcomeMarket

instance : ToDatum BacktestResult where
  toDatum r := .record [("asset_id", toDatum r.asset), ("strategy", toDatum r.strategy),
    ("starting_capital", toDatum r.startingCapital), ("final_capital", toDatum r.finalCapital),
    ("total_return", toDatum r.totalReturn), ("total_return_pct", toDatum r.totalReturnPercent),
    ("max_drawdown", toDatum r.maxDrawdown), ("win_rate", toDatum r.winRate),
    ("winning_trades", toDatum r.wins), ("losing_trades", toDatum r.losses),
    ("num_trades", toDatum r.trades), ("num_actions", toDatum r.actions),
    ("trades", toDatum r.ledger),
    ("equity_curve", .list (r.equityCurve.map fun p => .list [toDatum p.1, toDatum p.2]))]

instance : ToDatum PortfolioResult where
  toDatum r := .record [("markets_traded", toDatum r.markets.length),
    ("total_starting_capital", toDatum r.startingCapital),
    ("total_ending_capital", toDatum r.endingCapital),
    ("total_return_pct", toDatum r.totalReturnPercent), ("total_trades", toDatum r.trades),
    ("winning_trades", toDatum r.wins), ("losing_trades", toDatum r.losses),
    ("win_rate", toDatum r.winRate), ("master_ledger", toDatum r.ledger),
    ("markets", toDatum r.markets)]

end OutcomeMarket

import OutcomeMarket.Account.Snapshot
import OutcomeMarket.Record.Basic

/-! Accounts in documents: holdings, records of the history, and snapshots. -/
namespace OutcomeMarket

instance : ToDatum OutcomeSide := ⟨fun s => .text s.name⟩

instance : OfDatum OutcomeSide := ⟨Datum.named? OutcomeSide.ofName?⟩

instance : ToDatum TradeKind := ⟨fun k => .text k.name⟩

instance : OfDatum TradeKind := ⟨Datum.named? TradeKind.ofName?⟩

theorem TradeKind.ofDatum?_toDatum (k : TradeKind) : ofDatum? (toDatum k) = some k := ofName?_name k

instance : ToDatum Position where
  toDatum p := .record [("shares", toDatum p.shares), ("avg_entry_price", toDatum p.averagePrice)]

instance : OfDatum Position where
  ofDatum? d := do
    let fields ← d.fields? ["shares", "avg_entry_price"]
    return ⟨← Datum.field? fields "shares", ← Datum.field? fields "avg_entry_price"⟩

instance : ToDatum PositionPair where
  toDatum p := .record [("yes", toDatum p.yes), ("no", toDatum p.no)]

instance : OfDatum PositionPair where
  ofDatum? d := do
    let fields ← d.fields? ["yes", "no"]
    return ⟨← Datum.field? fields "yes", ← Datum.field? fields "no"⟩

instance : ToDatum Trade where
  toDatum t := .record [("asset_id", toDatum t.asset), ("timestamp", toDatum t.time),
    ("side", toDatum t.kind), ("price", toDatum t.price), ("shares", toDatum t.shares),
    ("dollar_value", toDatum t.value), ("fee", toDatum t.fee)]

/-- A record without a fee had none. -/
instance : OfDatum Trade where
  ofDatum? d := do
    let fields ← d.fields?
      ["asset_id", "timestamp", "side", "price", "shares", "dollar_value", "fee"]
    return {
      asset := ← Datum.field? fields "asset_id"
      time := ← Datum.field? fields "timestamp"
      kind := ← Datum.field? fields "side"
      price := ← Datum.field? fields "price"
      shares := ← Datum.field? fields "shares"
      value := ← Datum.field? fields "dollar_value"
      fee := ← Datum.fieldD fields "fee" .zero }

instance : ToDatum Snapshot where
  toDatum s := .record [("timestamp", toDatum s.time), ("starting_cash", toDatum s.startingCash),
    ("cash_balance", toDatum s.cash), ("portfolio_value", toDatum s.portfolioValue),
    ("peak_equity", toDatum s.peakEquity), ("max_drawdown", toDatum s.maxDrawdown),
    ("total_trades_executed", toDatum s.tradesExecuted), ("total_actions", toDatum s.actions),
    ("winning_trades", toDatum s.wins), ("losing_trades", toDatum s.losses),
    ("open_positions", toDatum s.openPositions)]

instance : OfDatum Snapshot where
  ofDatum? d := do
    let fields ← d.fields?
      ["timestamp", "starting_cash", "cash_balance", "portfolio_value", "peak_equity",
        "max_drawdown", "total_trades_executed", "total_actions", "winning_trades",
        "losing_trades", "open_positions"]
    return {
      time := ← Datum.field? fields "timestamp"
      startingCash := ← Datum.field? fields "starting_cash"
      cash := ← Datum.field? fields "cash_balance"
      portfolioValue := ← Datum.field? fields "portfolio_value"
      peakEquity := ← Datum.field? fields "peak_equity"
      maxDrawdown := ← Datum.field? fields "max_drawdown"
      tradesExecuted := ← Datum.field? fields "total_trades_executed"
      actions := ← Datum.field? fields "total_actions"
      wins := ← Datum.field? fields "winning_trades"
      losses := ← Datum.field? fields "losing_trades"
      openPositions := ← Datum.field? fields "open_positions" }

end OutcomeMarket

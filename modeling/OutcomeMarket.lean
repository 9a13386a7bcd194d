import OutcomeMarket.Live.Feed
import OutcomeMarket.Replay.Portfolio
import OutcomeMarket.Order.Context
import OutcomeMarket.Book.Basic
import OutcomeMarket.Error.Strategy
import OutcomeMarket.Account.Ledger
import OutcomeMarket.Decimal.Reader
import OutcomeMarket.Text.Quoted
import OutcomeMarket.Time.Reader
import OutcomeMarket.Time.Text
import OutcomeMarket.Binary64.Basic
import OutcomeMarket.Binary64.Shortest
import OutcomeMarket.Data.Json.Reader
import OutcomeMarket.Data.Json.Writer
import OutcomeMarket.Record.Config
import OutcomeMarket.Record.Market
import OutcomeMarket.Record.Result
import OutcomeMarket.Proofs.Account.Conservation
import OutcomeMarket.Proofs.Account.Replay
import OutcomeMarket.Proofs.Order.Exclusion
import OutcomeMarket.Proofs.Book.Soundness
import OutcomeMarket.Proofs.Account.RoundTrip
import OutcomeMarket.Proofs.Account.Mirror
import OutcomeMarket.Proofs.Order.Atomicity
import OutcomeMarket.Proofs.Replay.LookAhead
import OutcomeMarket.Proofs.Order.Liquidity
import OutcomeMarket.Proofs.Account.Extremes
import OutcomeMarket.Proofs.Account.Frame
import OutcomeMarket.Proofs.Strategy.Conduct
import OutcomeMarket.Proofs.Account.Closing
import OutcomeMarket.Proofs.Replay.Settlement
import OutcomeMarket.Proofs.Account.Valuation
import OutcomeMarket.Proofs.Live.Handling
import OutcomeMarket.Proofs.Live.Valuation
import OutcomeMarket.Proofs.Live.Feeds
import OutcomeMarket.Proofs.Live.Interleaving
import OutcomeMarket.Proofs.Account.Affordable
import OutcomeMarket.Proofs.Account.AveragePrice
import OutcomeMarket.Proofs.Account.BreakEven
import OutcomeMarket.Proofs.Replay.Isolation
import OutcomeMarket.Proofs.Account.Budget
import OutcomeMarket.Proofs.Order.Limit
import OutcomeMarket.Proofs.Order.EmptySide
import OutcomeMarket.Proofs.Order.Reasons
import OutcomeMarket.Proofs.Book.LastWrite
import OutcomeMarket.Proofs.Account.Fill
import OutcomeMarket.Proofs.Account.Records
import OutcomeMarket.Proofs.Account.Resolution
import OutcomeMarket.Proofs.Account.Holdings
import OutcomeMarket.Proofs.Book.Depth
import OutcomeMarket.Proofs.Account.Worth
import OutcomeMarket.Proofs.Strategy.Outputs
import OutcomeMarket.Proofs.Live.Metering
import OutcomeMarket.Proofs.Account.Room
import OutcomeMarket.Proofs.Replay.CandleRange

import OutcomeMarket.Ensure
import OutcomeMarket.Error.Strategy
import OutcomeMarket.Time.Text

/-! Trades of the past, and what a stream of them has to keep: prices from zero to one, no negative
size, one asset, and time that does not run backwards. -/
namespace OutcomeMarket

/-- One trade that was printed, in YES terms. -/
structure Tick where
  asset : String
  time : Instant
  price : Decimal
  size : Decimal
  deriving DecidableEq, Repr

namespace Tick

def validate (t : Tick) : Except StrategyError Unit := do
  ensure (.zero ≤ t.price ∧ t.price ≤ .one)
    (.invalidData s!"tick price {t.price} for {t.asset} outside [0, 1]")
  ensure (.zero ≤ t.size) (.invalidData s!"negative tick size {t.size} for {t.asset}")

/-- Each tick is valid and belongs to the asset. -/
def checkAll (asset : String) : List Tick → Except StrategyError Unit
  | [] => .ok ()
  | t :: ts => do
    t.validate
    ensure (t.asset = asset) (.invalidData s!"tick for {t.asset} in replay of {asset}")
    checkAll asset ts

/-- No tick precedes the one before it. -/
def checkOrder (asset : String) : List Tick → Except StrategyError Unit
  | t :: u :: ts =>
    if u.time < t.time then
      .error (.invalidData s!"timestamp {u.time.toMessage} precedes {t.time.toMessage} for {asset}")
    else checkOrder asset (u :: ts)
  | _ => .ok ()

/-- Ticks that can be replayed. Times are looked at when all else is in order. -/
def validateStream : List Tick → Except StrategyError Unit
  | [] => .ok ()
  | t :: ts => do
    checkAll t.asset (t :: ts)
    checkOrder t.asset (t :: ts)

end Tick
end OutcomeMarket

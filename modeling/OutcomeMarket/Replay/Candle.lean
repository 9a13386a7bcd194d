import OutcomeMarket.Fault
import OutcomeMarket.Replay.Tick

/-! Candles: what happened to a price over a span of time. A candle opens at its first tick, and the
first tick at or after its end opens the next one. -/
namespace OutcomeMarket

structure Candle where
  asset : String
  openTime : Instant
  opening : Decimal
  high : Decimal
  low : Decimal
  closing : Decimal
  volume : Decimal
  deriving DecidableEq, Repr

namespace Candle

/-- The candle of one tick. -/
def openAt (t : Tick) : Candle := ⟨t.asset, t.time, t.price, t.price, t.price, t.price, t.size⟩

/-- The candle with one more tick. -/
def absorb (c : Candle) (t : Tick) : Decimal.Checked Candle := do
  let volume ← c.volume.add t.size
  return { c with
    high := c.high.max t.price
    low := c.low.min t.price
    closing := t.price
    volume := volume }

/-- The time at which a candle ends. -/
def closeTime (c : Candle) (timeframe : Duration) : Faultable Instant :=
  match c.openTime.add? timeframe with
  | some t => .ok t
  | none => .error .calendarOverflow

end Candle

/-- A candle in the making. -/
structure CandleAggregator where
  timeframe : Duration
  current : Option Candle
  deriving DecidableEq, Repr

namespace CandleAggregator

def new (timeframe : Duration) : CandleAggregator := ⟨timeframe, none⟩

/-- Add a tick; the answer is the candle that it closed, if it closed one. -/
def push (a : CandleAggregator) (t : Tick) : Faultable (Option Candle × CandleAggregator) :=
  match a.current with
  | none => return (none, { a with current := some (.openAt t) })
  | some c => do
    let close ← c.closeTime a.timeframe
    if t.time < close then
      let c ← c.absorb t
      return (none, { a with current := some c })
    else return (some c, { a with current := some (.openAt t) })

/-- Close the candle in the making. -/
def flush (a : CandleAggregator) : Option Candle × CandleAggregator :=
  (a.current, { a with current := none })

end CandleAggregator
end OutcomeMarket

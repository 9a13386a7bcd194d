import OutcomeMarket.Account.Operation
import OutcomeMarket.Book.Basic

/-! What an order wants. Books quote YES; a NO order trades against the opposite side of the YES book,
at what the quote leaves of a dollar. -/
namespace OutcomeMarket

inductive OrderIntent where
  | buyYes
  | sellYes
  | buyNo
  | sellNo
  deriving DecidableEq, Repr

namespace OrderIntent

def name : OrderIntent → String
  | buyYes => "BUY_YES"
  | sellYes => "SELL_YES"
  | buyNo => "BUY_NO"
  | sellNo => "SELL_NO"

/-- The intent with this name. -/
def ofName? (s : String) : Option OrderIntent :=
  [buyYes, sellYes, buyNo, sellNo].find? fun i => i.name == s

def isBuy : OrderIntent → Bool
  | buyYes | buyNo => true
  | sellYes | sellNo => false

/-- The outcome whose shares change hands. -/
def side : OrderIntent → OutcomeSide
  | buyYes | sellYes => .yes
  | buyNo | sellNo => .no

/-- The side of the YES book that the order trades against. -/
def touchSide : OrderIntent → BookSide
  | buyYes | sellNo => .ask
  | sellYes | buyNo => .bid

/-- The record left by an order that was refused. -/
def rejection (i : OrderIntent) : TradeKind := if i.isBuy then .rejectBuy else .rejectSell

/-- A YES quote in the terms of the order's target. -/
def terms (i : OrderIntent) (quote : Decimal) : Decimal.Checked Decimal := i.side.priceFromYes quote

/-- Whether a price is as good as the target or better. -/
def Accepts (i : OrderIntent) (price target : Decimal) : Prop :=
  if i.isBuy then price ≤ target else target ≤ price

instance (i : OrderIntent) (price target : Decimal) : Decidable (i.Accepts price target) := by
  unfold Accepts
  infer_instance

/-- Fill against so many shares at a quote. A sale has no use for the dollars. -/
def fill (i : OrderIntent) (asset : String) (quote dollars size : Decimal) : BrokerM Decimal :=
  if i.isBuy then Broker.buy asset i.side quote dollars size
  else Broker.sellAll asset i.side quote size

end OrderIntent

/-- An order for one asset. The target is the worst acceptable price, in the terms of the intent. -/
structure Order where
  asset : String
  intent : OrderIntent
  target : Decimal
  dollars : Decimal
  deriving DecidableEq, Repr

end OutcomeMarket

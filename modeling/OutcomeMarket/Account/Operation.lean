import OutcomeMarket.Account.Broker

/-! What can be done to an account. Buys and sales are priced against the trader: a buy pays the
penalty on top of the quote, up to a highest price, a sale receives the quote less the penalty, down to a
lowest. A fill is worked out first and booked afterwards. -/
namespace OutcomeMarket
namespace Broker

/-- Orders of so many dollars or fewer are not worth a fill. -/
def minOrderDollars : Decimal := .lit 1 2

/-- The highest price of a buy. -/
def maxExecutionPrice : Decimal := .lit 99 2

/-- The lowest price of a sale. -/
def minExecutionPrice : Decimal := .lit 1 2

/-- Shares that change hands, their price, and the dollars that go the other way. -/
structure Fill where
  price : Decimal
  shares : Decimal
  value : Decimal
  deriving DecidableEq, Repr

/-- The price of a buy on one side at a YES quote. -/
def buyPrice (b : Broker) (side : OutcomeSide) (quote : Decimal) : Decimal.Checked Decimal := do
  let quoted ← side.priceFromYes quote
  let price ← quoted.add b.config.spreadPenalty
  return price.min maxExecutionPrice

/-- The price of a sale on one side at a YES quote. -/
def sellPrice (b : Broker) (side : OutcomeSide) (quote : Decimal) : Decimal.Checked Decimal := do
  let quoted ← side.priceFromYes quote
  let price ← quoted.sub b.config.spreadPenalty
  return price.max minExecutionPrice

/-- The part of the visible shares that one fill may take. -/
def cap (b : Broker) (available : Decimal) : Decimal.Checked Decimal :=
  available.mul b.config.maxParticipationRate

/-- What a buy fills: as many shares as the dollars pay for, no more than the cap, and no more than
the cash pays for. Dust, missing cash and a price that is not positive fill nothing. -/
def quoteBuy (b : Broker) (side : OutcomeSide) (quote dollars available : Decimal) :
    Decimal.Checked (Option Fill) := do
  if dollars ≤ minOrderDollars ∨ b.cash < dollars then return none
  let price ← b.buyPrice side quote
  if price ≤ .zero then return none
  let desired ← dollars.div price
  let most ← b.cap available
  let wanted := desired.min most
  let cost ← wanted.mul price
  let shares ← if b.cash < cost then b.cash.div price else pure wanted
  if shares ≤ .zero then return none
  let value ← shares.mul price
  return some ⟨price, shares, value.min b.cash⟩

/-- What a sale fills: the whole position, or as much of it as the limit allows. -/
def quoteSell (b : Broker) (asset : String) (side : OutcomeSide) (quote : Decimal)
    (limit : Option Decimal) : Decimal.Checked (Option Fill) := do
  let held := (b.position asset side).shares
  if held ≤ .zero then return none
  let price ← b.sellPrice side quote
  let shares := match limit with
    | some most => held.min most
    | none => held
  if shares ≤ .zero then return none
  let value ← shares.mul price
  return some ⟨price, shares, value⟩

def countAction : BrokerM Unit := modify fun b => { b with actions := b.actions + 1 }

def countExecuted : BrokerM Unit := modify fun b => { b with tradesExecuted := b.tradesExecuted + 1 }

/-- Book a buy: shares first, then cash, then the record. -/
def bookBuy (asset : String) (side : OutcomeSide) (fill : Fill) : BrokerM Unit := do
  let ledger ← (← get).ledger.applyBuy asset side fill.shares fill.value
  modify fun b => { b with ledger := ledger }
  let cash ← (← get).cash.sub fill.value
  modify fun b => { b with cash := cash }
  countAction
  record asset (.buyOf side) fill.price fill.shares fill.value .zero
  ensure (.zero ≤ cash) (Fault.negativeCash cash)

/-- Book a sale: the win or loss first, then shares, cash and the record; then equity is marked. -/
def bookSell (asset : String) (side : OutcomeSide) (fill : Fill) : BrokerM Unit := do
  classify fill.price ((← get).position asset side).averagePrice
  let ledger ← (← get).ledger.applySell asset side fill.shares
  modify fun b => { b with ledger := ledger }
  let cash ← (← get).cash.add fill.value
  modify fun b => { b with cash := cash }
  countExecuted
  countAction
  record asset (.sellOf side) fill.price fill.shares fill.value .zero
  discard markEquity

/-- Buy with up to `dollars`. The result is the number of shares filled. -/
def buy (asset : String) (side : OutcomeSide) (quote dollars available : Decimal) :
    BrokerM Decimal := do
  ensure (.zero ≤ dollars) (Fault.negativeDollars dollars)
  ensure (.zero ≤ available) (Fault.negativeAvailable available)
  setPrice asset quote
  match ← (← get).quoteBuy side quote dollars available with
  | none => return .zero
  | some fill =>
    bookBuy asset side fill
    return fill.shares

/-- Sell up to the limit, all without one. The result is the number of shares filled. -/
def sell (asset : String) (side : OutcomeSide) (quote : Decimal) (limit : Option Decimal) :
    BrokerM Decimal := do
  setPrice asset quote
  match ← (← get).quoteSell asset side quote limit with
  | none => return .zero
  | some fill =>
    bookSell asset side fill
    return fill.shares

/-- Sell the position into the visible shares. -/
def sellAll (asset : String) (side : OutcomeSide) (quote available : Decimal) : BrokerM Decimal := do
  let limit ← (← get).cap available
  sell asset side quote (some limit)

/-- Sell both sides without a limit. The result is the number of shares closed. -/
def liquidate (asset : String) (quote : Decimal) : BrokerM Decimal := do
  let yes ← sell asset .yes quote none
  let no ← sell asset .no quote none
  let total ← yes.add no
  return total

/-- What a settled holding pays: the gross amount less a fee on the profit. -/
def settlement (b : Broker) (p : Position) (price : Decimal) :
    Decimal.Checked (Decimal × Decimal) := do
  let gross ← p.shares.mul price
  let gain ← price.sub p.averagePrice
  let profit ← gain.mul p.shares
  let fee ← (profit.max .zero).mul b.config.resolutionFeeRate
  let net ← gross.sub fee
  return (net, fee)

/-- Settle one side; without a holding there is nothing to do. -/
def resolveSide (asset : String) (outcome : Decimal) (side : OutcomeSide) :
    BrokerM (Option Decimal) := do
  let p := (← get).position asset side
  if p.shares ≤ .zero then return none
  let price ← side.priceFromYes outcome
  let (net, fee) ← (← get).settlement p price
  let cash ← (← get).cash.add net
  modify fun b => { b with cash := cash }
  classify price p.averagePrice
  modify fun b => { b with ledger := b.ledger.close asset side }
  record asset (.resolveOf side) price p.shares net fee
  return some net

/-- Add what a side was settled for, if it was. -/
def addNet (total : Decimal) : Option Decimal → Decimal.Checked Decimal
  | some net => total.add net
  | none => .ok total

/-- Settle a market at its outcome, in YES terms. The result is the cash credited. However many
sides were held, the settlement counts as one trade. -/
def resolve (asset : String) (outcome : Decimal) : BrokerM Decimal := do
  setPrice asset outcome
  let yes ← resolveSide asset outcome .yes
  let total ← addNet .zero yes
  let no ← resolveSide asset outcome .no
  let total ← addNet total no
  if yes.isSome || no.isSome then
    countExecuted
    discard markEquity
  return total

/-- Note an order that did not fill. -/
def reject (asset : String) (kind : TradeKind) (price : Decimal) : BrokerM Unit := do
  ensure (kind.isRejection = true) (Fault.notRejection kind)
  record asset kind price .zero .zero .zero

end Broker

/-- One operation on an account, with all its arguments. -/
inductive Operation where
  | buy (asset : String) (side : OutcomeSide) (quote dollars available : Decimal)
  | sellAll (asset : String) (side : OutcomeSide) (quote available : Decimal)
  | liquidate (asset : String) (quote : Decimal)
  | resolve (asset : String) (outcome : Decimal)
  | reject (asset : String) (kind : TradeKind) (price : Decimal)
  | setClock (now : Instant)
  | setPrice (asset : String) (price : Decimal)
  | markEquity
  deriving DecidableEq, Repr

namespace Operation

/-- Do the operation. Buys and sales answer shares, a settlement cash, a mark equity. -/
def run : Operation → BrokerM (Option Decimal)
  | buy asset side quote dollars available =>
    some <$> Broker.buy asset side quote dollars available
  | sellAll asset side quote available => some <$> Broker.sellAll asset side quote available
  | liquidate asset quote => some <$> Broker.liquidate asset quote
  | resolve asset outcome => some <$> Broker.resolve asset outcome
  | reject asset kind price => do
    Broker.reject asset kind price
    return none
  | setClock now => do
    Broker.setClock now
    return none
  | setPrice asset price => do
    Broker.setPrice asset price
    return none
  | markEquity => some <$> Broker.markEquity

end Operation

namespace Broker

/-- The account after a sequence of operations, if none of them faults. -/
def runAll (b : Broker) : List Operation → Except Fault Broker
  | [] => .ok b
  | op :: ops =>
    match op.run b with
    | .ok _ b' => b'.runAll ops
    | .error f _ => .error f

end Broker
end OutcomeMarket

import OutcomeMarket.Order.Intent

/-! Filling an order against a book. An order without latency trades the touch it finds. A delayed one
looks at the book once, when its time has come: the quote has to be tradable, and as good as the target.
Either may find the book locked. -/
namespace OutcomeMarket

/-- How a delayed order ended. -/
inductive OrderOutcome where
  | filled (shares : Decimal)
  | rejected (cause : ExecutionError)
  deriving DecidableEq, Repr

namespace OrderOutcome

def isFilled : OrderOutcome → Bool
  | filled _ => true
  | rejected _ => false

/-- Shares filled, none for a rejection. -/
def shares : OrderOutcome → Decimal
  | filled n => n
  | rejected _ => .zero

end OrderOutcome

namespace Order

/-- Fill against the touch and take what was filled out of the book. -/
def trade (o : Order) (book : Book) : BrokerM (Decimal × Book) := do
  let side := o.intent.touchSide
  let filled ← o.intent.fill o.asset (book.bestPrice side) o.dollars (book.bestSize side)
  if .zero < filled then
    let book ← book.consume side filled
    return (filled, book)
  else return (filled, book)

/-- Execute at once. -/
def fillNow (o : Order) (locked : Bool) (book : Book) :
    BrokerM (Except ExecutionError Decimal × Book) := do
  if locked then return (.error (.bookBusy o.asset), book)
  let (filled, book) ← o.trade book
  return (.ok filled, book)

/-- Whether a quote lies inside the band in which delayed orders trade. -/
def Tradable (quote : Decimal) : Prop :=
  Broker.minExecutionPrice < quote ∧ quote < Broker.maxExecutionPrice

instance (quote : Decimal) : Decidable (Tradable quote) :=
  inferInstanceAs (Decidable (Broker.minExecutionPrice < quote ∧ quote < Broker.maxExecutionPrice))

/-- Why an acceptable quote filled nothing. -/
def emptyFill (o : Order) (cash : Decimal) : ExecutionError :=
  if o.intent.isBuy then .insufficientFunds o.asset o.dollars cash else .noPosition o.asset

/-- Execute after the latency has passed. Only a quote that is out of band or worse than the target
leaves a record of the rejection. -/
def fillAfterDelay (o : Order) (locked : Bool) (book : Book) : BrokerM (OrderOutcome × Book) := do
  if locked then return (.rejected (.bookBusy o.asset), book)
  let quote := book.bestPrice o.intent.touchSide
  if ¬ Tradable quote then
    Broker.reject o.asset o.intent.rejection .zero
    return (.rejected (.staleOrRejectedPrice o.asset quote), book)
  let observed ← o.intent.terms quote
  if ¬ o.intent.Accepts observed o.target ∨ book.bestSize o.intent.touchSide ≤ .zero then
    Broker.reject o.asset o.intent.rejection observed
    return (.rejected (.missedExecutionRace o.asset o.target observed), book)
  let (filled, book) ← o.trade book
  if .zero < filled then return (.filled filled, book)
  return (.rejected (o.emptyFill (← get).cash), book)

end Order
end OutcomeMarket

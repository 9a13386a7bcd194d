import OutcomeMarket.Decimal.Text
import OutcomeMarket.Text.Quoted

/-! What can go wrong with orders, books and configurations. Market conditions are ordinary: the next
tick may succeed where this one did not. All else is a failure of the surroundings. -/
namespace OutcomeMarket

inductive ExecutionError where
  | insufficientFunds (asset : String) (requested available : Decimal)
  | noPosition (asset : String)
  | staleOrRejectedPrice (asset : String) (price : Decimal)
  | missedExecutionRace (asset : String) (target observed : Decimal)
  | duplicateOrder (asset : String)
  | malformedEntry (price size reason : String)
  | bookBusy (asset : String)
  | configuration (reason : String)
  | noRuntime
  | taskFailed (reason : String)
  | malformedYaml
  | malformedJson
  | unreadableFile (reason : String)
  deriving DecidableEq, Repr

namespace ExecutionError

def message : ExecutionError → String
  | insufficientFunds asset requested available =>
    s!"Insufficient funds for {asset}: requested {requested}, available {available}"
  | noPosition asset => s!"No position to sell for {asset}"
  | staleOrRejectedPrice asset price => s!"Stale or rejected price {price} for {asset}"
  | missedExecutionRace asset target observed =>
    s!"Missed execution race for {asset}: target {target}, observed {observed}"
  | duplicateOrder asset => s!"Order already in flight for {asset}"
  | malformedEntry price size reason =>
    s!"Malformed book entry (price={Text.quoted price}, size={Text.quoted size}): {reason}"
  | bookBusy asset => s!"Order book for {asset} is locked"
  | configuration reason => s!"Configuration error: {reason}"
  | noRuntime => "No tokio runtime available for delayed execution"
  | taskFailed reason => s!"Delayed order task failed: {reason}"
  | malformedYaml => "YAML error"
  | malformedJson => "JSON error"
  | unreadableFile reason => s!"IO error: {reason}"

/-- Whether the market is the cause, so that trying again makes sense. -/
def isMarketCondition : ExecutionError → Bool
  | insufficientFunds .. | noPosition _ | staleOrRejectedPrice .. | missedExecutionRace ..
  | duplicateOrder _ | malformedEntry .. | bookBusy _ => true
  | _ => false

/-- Whether the book moved away while the order was on its way. -/
def isRaceRejection : ExecutionError → Bool
  | staleOrRejectedPrice .. | missedExecutionRace .. => true
  | _ => false

theorem isMarketCondition_of_isRaceRejection {e : ExecutionError} (h : e.isRaceRejection = true) :
    e.isMarketCondition = true := by cases e <;> simp_all [isRaceRejection, isMarketCondition]

end ExecutionError
end OutcomeMarket

import OutcomeMarket.Error.Execution

/-! What can go wrong in a strategy or in the run that drives it. -/
namespace OutcomeMarket

inductive StrategyError where
  | execution (cause : ExecutionError)
  | marketNotFound (what : String)
  | invalidParameter (reason : String)
  | invalidData (reason : String)
  | insufficientData (reason : String)
  | configuration (reason : String)
  | malformedJson
  | malformedYaml
  | unreadableFile (reason : String)
  | other (reason : String)
  deriving DecidableEq, Repr

namespace StrategyError

def message : StrategyError → String
  | execution cause => s!"Execution error: {cause.message}"
  | marketNotFound what => s!"Market not found: {what}"
  | invalidParameter reason => s!"Invalid parameter: {reason}"
  | invalidData reason => s!"Invalid data: {reason}"
  | insufficientData reason => s!"Insufficient data: {reason}"
  | configuration reason => s!"Configuration error: {reason}"
  | malformedJson => "Serialization error"
  | malformedYaml => "YAML error"
  | unreadableFile reason => s!"I/O error: {reason}"
  | other reason => s!"Strategy error: {reason}"

/-- Whether the market is the cause; such an error does not end a run. -/
def isMarketCondition : StrategyError → Bool
  | execution cause => cause.isMarketCondition
  | _ => false

end StrategyError
end OutcomeMarket

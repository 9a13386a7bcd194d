import OutcomeMarket.Account.Trade
import OutcomeMarket.Ensure

/-! Faults: the ways in which a computation ends that must not happen in a sound simulation. A fault is
no answer about the market, unlike an error; it says that a number left its range or that a caller
broke a rule. -/
namespace OutcomeMarket

inductive Fault where
  | arithmetic (cause : Decimal.ArithmeticFault)
  | counterOverflow
  | calendarOverflow
  | negativePosition (asset : String) (side : OutcomeSide) (shares : Decimal)
  | emptyBuy (filled : Decimal)
  | oversold (filled held : Decimal) (asset : String) (side : OutcomeSide)
  | invalidLevel (size price : Decimal)
  | negativeDollars (dollars : Decimal)
  | negativeAvailable (shares : Decimal)
  | negativeCash (cash : Decimal)
  | notRejection (kind : TradeKind)
  deriving DecidableEq, Repr

namespace Fault

def message : Fault → String
  | arithmetic cause => cause.message
  | counterOverflow => "attempt to add with overflow"
  | calendarOverflow => "`DateTime + TimeDelta` overflowed"
  | negativePosition asset side shares => s!"negative position for {asset} {side}: {shares}"
  | emptyBuy filled => s!"buy of non-positive size {filled}"
  | oversold filled held asset side => s!"sell of {filled} exceeds position {held} for {asset} {side}"
  | invalidLevel size price => s!"invalid depth level {size} @ {price}"
  | negativeDollars dollars => s!"negative dollars_to_invest {dollars}"
  | negativeAvailable shares => s!"negative available_shares {shares}"
  | negativeCash cash => s!"cash went negative: {cash}"
  | notRejection kind => s!"{kind} is not a rejection kind"

end Fault

/-- Results that may fault. -/
abbrev Faultable := Except Fault

instance : MonadLift Decimal.Checked Faultable := ⟨fun x => x.mapError Fault.arithmetic⟩

/-- A result without state, used where there is one. -/
instance liftExcept {ε σ : Type} : MonadLift (Except ε) (EStateM ε σ) where
  monadLift
    | .ok a => pure a
    | .error e => throw e

end OutcomeMarket

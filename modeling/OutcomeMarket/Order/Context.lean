import OutcomeMarket.Metric
import OutcomeMarket.Order.Session

/-! The surface on which a strategy trades: the session it shares with others, and a buffer of its own
for metrics. -/
namespace OutcomeMarket

structure Context where
  id : String
  metrics : List Metric

namespace Context

def new (id : String) : Context := ⟨id, []⟩

def emit (c : Context) (m : Metric) : Context := { c with metrics := c.metrics ++ [m] }

/-- Count an order that was dropped. -/
def track (c : Context) (asset : String) : Submission → Context
  | .dropped => c.emit (.orderDropped c.id asset)
  | _ => c

/-- Hand over the metrics collected so far. -/
def drain (c : Context) : List Metric × Context := (c.metrics, { c with metrics := [] })

end Context
end OutcomeMarket

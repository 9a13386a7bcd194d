import OutcomeMarket.Strategy.Basic

/-! Trading on live books without real money. Each asset that shows up gets a book and a strategy of its
own; all share one account and one order desk. A heartbeat collects what has been measured since the one
before. -/
namespace OutcomeMarket

structure TraderConfig where
  broker : BrokerConfig
  /-- Seconds from one heartbeat to the next -/
  heartbeatSeconds : Nat
  deriving DecidableEq, Repr

namespace TraderConfig

def standard : TraderConfig := ⟨.standard, 60⟩

def validate (c : TraderConfig) : Except StrategyError Unit := do
  c.broker.validate.mapError fun p => .execution (.configuration p.message)
  ensure (0 < c.heartbeatSeconds) (.configuration "heartbeat_interval_secs must be positive")

end TraderConfig

/-- News about the book of one asset. -/
structure BookEvent where
  asset : String
  bids : List RawLevel
  asks : List RawLevel
  /-- Whether the levels are the whole book and not only what changed -/
  isSnapshot : Bool
  deriving DecidableEq, Repr

/-- What a strategy is shown: the book after the news. -/
structure BookView where
  asset : String
  book : Book
  deriving DecidableEq, Repr

/-- The strategy of one asset. -/
structure Desk (ν σ : Type) where
  strategy : Strategy ν BookView σ
  state : σ
  context : Context

structure Trader (ν σ : Type) where
  session : Session
  desks : TextMap (Desk ν σ)
  /-- Measurements of the trader itself since the last heartbeat -/
  pending : List Metric
  /-- What the last heartbeat collected -/
  latest : List Metric
  events : Nat
  journal : List ν
  /-- The assets for which a strategy was asked for, as often as it was -/
  made : List String

abbrev TraderM (ν σ : Type) := EStateM Halt (Trader ν σ)

/-- How to make the strategy of an asset. -/
abbrev Maker (ν σ : Type) := String → Strategy ν BookView σ × σ

namespace Trader

variable {ν σ : Type}

/-- The source of the trader's own metrics. -/
def source : String := "paper"

def new (c : TraderConfig) (visiting : Visiting) : Except StrategyError (Trader ν σ) := do
  c.validate
  return ⟨.new (.new c.broker visiting) c.broker.latencyMillis, .empty, [], [], 0, [], []⟩

/-- Write the news into the book. -/
def updateBook (e : BookEvent) (t : Trader ν σ) : DeltaSummary × Trader ν σ :=
  let b := t.session.book e.asset
  let (b, summary) :=
    if e.isSnapshot then b.applySnapshot e.bids e.asks else b.applyRaw e.bids e.asks
  (summary, { t with session := t.session.setBook e.asset b })

/-- Count entries that were skipped, if there were any. -/
def noteSkipped (asset : String) (summary : DeltaSummary) (t : Trader ν σ) : Trader ν σ :=
  if summary.isClean then t
  else { t with pending := t.pending ++ [.entriesSkipped source asset summary.skipped.length] }

/-- Work on the account of a trader. -/
def onBroker {α : Type} (x : BrokerM α) : TraderM ν σ α := fun t =>
  match Session.onBroker x t.session with
  | .ok a s => .ok a { t with session := s }
  | .error f s => .error (.fault f) { t with session := s }

/-- Ask for the strategy of an asset. -/
def ask (make : Maker ν σ) (asset : String) : TraderM ν σ (Strategy ν BookView σ × σ) := do
  modify fun t => { t with made := t.made ++ [asset] }
  return make asset

/-- The desk of an asset, made when it is first needed. -/
def desk (make : Maker ν σ) (asset : String) : TraderM ν σ (Desk ν σ) := do
  match (← get).desks.find? asset with
  | some d => return d
  | none =>
    let (strategy, state) ← ask make asset
    let d : Desk ν σ := ⟨strategy, state, .new s!"{strategy.metadata.name}:{asset}"⟩
    modify fun t => { t with desks := t.desks.insert asset d }
    return d

/-- Put a workspace back where it came from. -/
def restore (t : Trader ν σ) (asset : String) (d : Desk ν σ) (w : Workspace ν) : Trader ν σ :=
  { t with
    session := w.session
    desks := t.desks.insert asset { d with context := w.context }
    journal := w.journal }

/-- Run a program of an asset's strategy. -/
def onDesk {α : Type} (asset : String) (d : Desk ν σ) (p : Program ν α) : TraderM ν σ α := fun t =>
  match p.run ⟨t.session, d.context, t.journal⟩ with
  | .ok a w => .ok a (t.restore asset d w)
  | .error f w => .error (.fault f) (t.restore asset d w)

/-- Take in the news: the book first, then the middle as last known price, then the strategy. -/
def handle (make : Maker ν σ) (e : BookEvent) : TraderM ν σ Unit := do
  modify fun t => { t with events := t.events + 1 }
  let summary ← modifyGet (updateBook e)
  let mid ← ((← get).session.book e.asset).mid
  modify (noteSkipped e.asset summary)
  match mid with
  | some price => onBroker (Broker.setPrice e.asset price)
  | none => pure ()
  let d ← desk make e.asset
  let book := (← get).session.book e.asset
  let (answer, state) ← onDesk e.asset d (d.strategy.react d.state ⟨e.asset, book⟩)
  modify fun t =>
    { t with desks := t.desks.insert e.asset { (t.desks.find? e.asset).getD d with state := state } }
  (tolerate answer : Except StrategyError Unit)

/-- The metrics of all desks, which are handed over by this. -/
def drainDesks (t : Trader ν σ) : List Metric × Trader ν σ :=
  (t.desks.entries.flatMap fun e => e.2.context.metrics,
    { t with desks := t.desks.map fun d => { d with context := d.context.drain.2 } })

/-- Collect the account's snapshot, the trader's own metrics and those of all strategies. -/
def heartbeat : TraderM ν σ Unit := do
  let snapshot ← (← get).session.broker.snapshot
  let account ← (Metric.ofSnapshot source snapshot : Faultable (List Metric))
  let drained ← modifyGet drainDesks
  modify fun t => { t with latest := account ++ t.pending ++ drained, pending := [] }

end Trader
end OutcomeMarket

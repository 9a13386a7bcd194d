import OutcomeMarket.Live.Trader

/-! Running a trader on a feed. News, signals and the passing of time arrive in one order; news that
arrive at the same moment are taken in before time moves. A strategy that lets time pass holds up its
trader: what comes after it waits, heartbeats too. The run ends when the feed closes, when a shutdown is
signalled or its signal is lost, or when a strategy fails. -/
namespace OutcomeMarket

/-- What a feed brings. -/
inductive FeedItem where
  | event (e : BookEvent)
  | sleep (ms : Nat)
  | shutdown (value : Bool)
  | loseShutdown
  | close
  deriving DecidableEq, Repr

/-- How a run ended. -/
abbrev RunEnd := Except StrategyError Snapshot

/-- A trader on a feed. -/
structure Run (ν σ : Type) where
  trader : Trader ν σ
  /-- When the next heartbeat is due -/
  nextBeat : Nat
  /-- Set once the run has ended -/
  ended : Option RunEnd

abbrev RunM (ν σ : Type) := EStateM Fault (Run ν σ)

namespace Run

variable {ν σ : Type}

/-- Work on the trader; a strategy's error ends the run. -/
def onTrader (x : TraderM ν σ Unit) : RunM ν σ Unit := fun r =>
  match x r.trader with
  | .ok _ t => .ok () { r with trader := t }
  | .error (.fault f) t => .error f { r with trader := t }
  | .error (.error e) t => .ok () { r with trader := t, ended := some (.error e) }

/-- End the run with the account as it stands. -/
def finish : RunM ν σ Unit := do
  let snapshot ← (← get).trader.session.broker.snapshot
  modify fun r => { r with ended := some (.ok snapshot) }

/-- Stop in good order: one more heartbeat, then the end. -/
def stop : RunM ν σ Unit := do
  onTrader Trader.heartbeat
  finish

def runUntil (time : Nat) : RunM ν σ Unit :=
  modify fun r => { r with trader := { r.trader with session := r.trader.session.runUntil none time } }

/-- When the heartbeat after one that was due is due itself. One that came more than five milliseconds
late moves all that follow. -/
def beatAfter (interval due now : Nat) : Nat := if due + 5 < now then now + interval else due + interval

/-- Heartbeats up to a time, at most `fuel` of them. -/
def beats (interval target : Nat) : Nat → RunM ν σ Unit
  | 0 => return ()
  | fuel + 1 => do
    let due := (← get).nextBeat
    if due ≤ target then
      runUntil due
      onTrader Trader.heartbeat
      modify fun r => { r with nextBeat := beatAfter interval due r.trader.session.now }
      beats interval target fuel

/-- Let time pass. A run that has ended has no heartbeats, but orders fall due all the same. -/
def sleep (interval ms : Nat) : RunM ν σ Unit := do
  let r ← get
  let target := r.trader.session.now + Session.timer ms
  if r.ended.isNone then beats interval target ((Session.timer ms + 5) / interval + 1)
  runUntil target

/-- Take in one item. What arrives after the end is lost. -/
def item (make : Maker ν σ) (interval : Nat) (i : FeedItem) : RunM ν σ Unit := do
  if let .sleep ms := i then sleep interval ms
  else if (← get).ended.isNone then
    match i with
    | .event e => onTrader (Trader.handle make e)
    | .shutdown true | .loseShutdown | .close => stop
    | .shutdown false | .sleep _ => return ()

/-- The whole feed, which is closed at its end. -/
def feed (make : Maker ν σ) (interval : Nat) (items : List FeedItem) : RunM ν σ Unit := do
  items.forM (item make interval)
  if (← get).ended.isNone then stop

/-- A run that may have been told to shut down before its start; then it has no heartbeat at all. -/
def play (make : Maker ν σ) (interval : Nat) (shutdownFirst : Bool) (items : List FeedItem) :
    RunM ν σ Unit := do
  if shutdownFirst then finish
  feed make interval items

end Run

namespace Trader

variable {ν σ : Type}

/-- Milliseconds from one heartbeat to the next. -/
def beatInterval (c : TraderConfig) : Nat := Session.timer (c.heartbeatSeconds * 1000)

/-- Run on a feed to its end. The first heartbeat is due one interval after the start. -/
def run (c : TraderConfig) (make : Maker ν σ) (shutdownFirst : Bool) (items : List FeedItem)
    (t : Trader ν σ) : Faultable (Option RunEnd) × Trader ν σ :=
  match Run.play make (beatInterval c) shutdownFirst items
      ⟨t, t.session.now + beatInterval c, none⟩ with
  | .ok _ r => (.ok r.ended, r.trader)
  | .error f r => (.error f, r.trader)

end Trader
end OutcomeMarket

import OutcomeMarket.Error.Strategy
import OutcomeMarket.Order.Execution
import OutcomeMarket.Order.InFlight

/-! Orders over time. A session holds an account, the live books and the clock. Without latency an order
is filled when it is submitted. With latency it waits, and its asset takes no other order until it is
decided; orders that fall due together are decided in the order of their submission. -/
namespace OutcomeMarket

/-- The book an order trades on: a live one of the session, not always that of the order's asset, or one
of its own. -/
inductive Venue where
  | live (asset : String)
  | own (book : Book)
  deriving DecidableEq, Repr

/-- How far a delayed order has come. One whose cancellation is asked for stays on its way until the
runtime drops it. -/
inductive Stage where
  | pending
  | aborting
  | decided (outcome : OrderOutcome)
  | faulted (cause : Fault)
  | cancelled
  deriving DecidableEq, Repr

/-- Whether an order keeps its asset: until it is decided, has faulted or is dropped. -/
def Stage.isLive : Stage → Bool
  | .pending | .aborting => true
  | _ => false

structure DelayedOrder where
  order : Order
  venue : Venue
  /-- When it is decided, in milliseconds of the session's clock -/
  due : Nat
  stage : Stage
  /-- Whether somebody has waited for it -/
  collected : Bool
  deriving DecidableEq, Repr

def DelayedOrder.isPending (d : DelayedOrder) : Bool := d.stage == .pending

def DelayedOrder.isLive (d : DelayedOrder) : Bool := d.stage.isLive

/-- The answer to a submission. -/
inductive Submission where
  | immediate (shares : Decimal)
  | pending (number : Nat)
  | dropped
  | rejected (cause : ExecutionError)
  deriving DecidableEq, Repr

/-- The answer to waiting for an order. -/
inductive Waited where
  | outcome (outcome : OrderOutcome)
  | failed (cause : ExecutionError)
  | gone
  deriving DecidableEq, Repr

structure Session where
  broker : Broker
  /-- Milliseconds between submission and decision -/
  latency : Nat
  now : Nat
  books : TextMap Book
  inFlight : InFlight
  /-- All delayed orders by number -/
  orders : Array DelayedOrder

/-- What is done in a session, unless it faults. -/
abbrev SessionM := EStateM Fault Session

namespace Session

def new (broker : Broker) (latency : Nat) : Session := ⟨broker, latency, 0, .empty, .empty, #[]⟩

/-- A session whose latency needs timers, where there may be none. -/
def start (broker : Broker) (latency : Nat) (hasTimers : Bool) : Except ExecutionError Session :=
  if latency ≠ 0 ∧ ¬ hasTimers then .error .noRuntime else .ok (new broker latency)

/-- The milliseconds that a timer runs: as many as it is set to, but never more than thirty years. -/
def timer (ms : Nat) : Nat := Nat.min ms (30 * 365 * 86400000)

/-- The live book of an asset, empty before its first update. -/
def book (s : Session) (asset : String) : Book := (s.books.find? asset).getD (.empty asset)

def setBook (s : Session) (asset : String) (b : Book) : Session :=
  { s with books := s.books.insert asset b }

def venueBook (s : Session) : Venue → Book
  | .live asset => s.book asset
  | .own b => b

/-- Keep what an order left of its book. A book of its own ends with the order. -/
def leaveBook (s : Session) (v : Venue) (b : Book) : Session :=
  match v with
  | .live asset => s.setBook asset b
  | .own _ => s

/-- Work on the account of the session. -/
def onBroker {α : Type} (x : BrokerM α) : SessionM α := fun s =>
  match x s.broker with
  | .ok a b => .ok a { s with broker := b }
  | .error f b => .error f { s with broker := b }

/-- Put an order on its way, if its asset is free. -/
def delay (s : Session) (o : Order) (v : Venue) : Submission × Session :=
  match s.inFlight.acquire? o.asset with
  | none => (.dropped, s)
  | some inFlight =>
    (.pending s.orders.size, { s with
      inFlight := inFlight
      orders := s.orders.push ⟨o, v, s.now + timer s.latency, .pending, false⟩ })

/-- Submit an order. `locked` says that somebody reads its book meanwhile. -/
def submit (o : Order) (v : Venue) (locked : Bool) : SessionM Submission := do
  if (← get).latency = 0 then
    let (answer, book) ← onBroker (o.fillNow locked ((← get).venueBook v))
    modify fun s => s.leaveBook v book
    match answer with
    | .ok filled => return .immediate filled
    | .error cause => return .rejected cause
  else modifyGet fun s => s.delay o v

/-- End a delayed order and free its asset. -/
def finish (s : Session) (n : Nat) (d : DelayedOrder) (stage : Stage) : Session :=
  { s with
    inFlight := s.inFlight.release d.order.asset
    orders := s.orders.setIfInBounds n { d with stage := stage } }

/-- Whether the book at a venue is the live book of the asset that is being read. -/
def isHeld (held : Option String) : Venue → Bool
  | .live asset => held == some asset
  | .own _ => false

/-- Decide an order. A fault ends the order and not the session. -/
def fire (held : Option String) (s : Session) (n : Nat) (d : DelayedOrder) : Session :=
  let o := d.order
  match o.fillAfterDelay (isHeld held d.venue) (s.venueBook d.venue) s.broker with
  | .ok (outcome, book) b =>
    ({ s with broker := b }.leaveBook d.venue book).finish n d (.decided outcome)
  | .error f b => { s with broker := b }.finish n d (.faulted f)

/-- Decide an order if it is pending and its time has come. -/
def fireIfDue (held : Option String) (s : Session) (n : Nat) : Session :=
  match s.orders[n]? with
  | some d => if d.isPending && d.due ≤ s.now then s.fire held n d else s
  | none => s

/-- Decide all orders that are due, in the order of their numbers. -/
def fireDue (held : Option String) (s : Session) : Session :=
  (List.range s.orders.size).foldl (fireIfDue held) s

/-- Ask for the cancellation of an order that is not decided yet. Its asset is not free before the
order is dropped. -/
def abort (s : Session) (n : Nat) : Session :=
  match s.orders[n]? with
  | some d =>
    if d.isPending && !d.collected then
      { s with orders := s.orders.setIfInBounds n { d with stage := .aborting } }
    else s
  | none => s

/-- Drop an order if its cancellation was asked for. -/
def dropIfAborting (s : Session) (n : Nat) : Session :=
  match s.orders[n]? with
  | some d => if d.stage == .aborting then s.finish n d .cancelled else s
  | none => s

/-- Drop all orders whose cancellation was asked for. -/
def dropAborted (s : Session) : Session := (List.range s.orders.size).foldl dropIfAborting s

/-- Let the clock run up to a time: first the runtime drops what is to be cancelled, then it decides
what falls due. `held` names an asset whose live book is being read meanwhile. -/
def runUntil (held : Option String) (s : Session) (time : Nat) : Session :=
  fireDue held { s.dropAborted with now := Nat.max s.now time }

/-- Let so many milliseconds pass. -/
def advance (held : Option String) (s : Session) (ms : Nat) : Session :=
  s.runUntil held (s.now + ms)

/-- What waiting tells about the end of an order. -/
def Stage.answer : Stage → Waited
  | .decided outcome => .outcome outcome
  | .faulted cause =>
    .failed (.taskFailed s!"task N panicked with message {Text.quoted cause.message}")
  | .cancelled => .failed (.taskFailed "task N was cancelled")
  | .pending | .aborting => .gone

/-- When waiting for an order is over: when it is due, or at once if it is only to be dropped. -/
def endOfWait (s : Session) (d : DelayedOrder) : Nat := if d.isPending then d.due else s.now

/-- Wait for an order, which can be done once. Time moves on until it is due. -/
def wait (held : Option String) (s : Session) (n : Nat) : Waited × Session :=
  match s.orders[n]? with
  | none => (.gone, s)
  | some d =>
    if d.collected then (.gone, s)
    else
      let s := if d.isLive then s.runUntil held (s.endOfWait d) else s
      match s.orders[n]? with
      | none => (.gone, s)
      | some d =>
        (Stage.answer d.stage, { s with orders := s.orders.setIfInBounds n { d with collected := true } })

/-- Whether an order has ended; nothing is known of one that has been waited for. -/
def isFinished (s : Session) (n : Nat) : Option Bool :=
  match s.orders[n]? with
  | some d => if d.collected then none else some (!d.isLive)
  | none => none

end Session
end OutcomeMarket

import OutcomeMarket.Order.Context

/-! What a strategy does in one callback: a program over the account, the order desk and the metrics of
its context. A program decides each step from the answers to the steps before it, and it may let time
pass between them, in which other orders fall due. It may leave notes in the journal of the run, which
outlast errors and faults. -/
namespace OutcomeMarket

/-- What a strategy does with the orders it has on their way, and with time. -/
inductive Errand where
  | wait (number : Nat)
  | abort (number : Nat)
  | sleep (ms : Nat)
  deriving DecidableEq, Repr

namespace Errand

/-- Do the errand. Only waiting for an order has an answer. `held` names an asset whose live book is
being read meanwhile. -/
def run (held : Option String) : Errand → Session → Option Waited × Session
  | wait number, s =>
    let (answer, s) := s.wait held number
    (some answer, s)
  | abort number, s => (none, s.abort number)
  | sleep ms, s => (none, s.advance held (Session.timer ms))

end Errand

/-- Programs that answer an α and leave notes of type ν. -/
inductive Program (ν α : Type) where
  | done (answer : α)
  | fault (cause : Fault)
  | look (next : Session → Program ν α)
  | operate (op : Operation) (next : Option Decimal → Program ν α)
  | submit (order : Order) (venue : Venue) (locked : Bool) (next : Submission → Program ν α)
  | attend (errand : Errand) (held : Option String) (next : Option Waited → Program ν α)
  | emit (metric : Metric) (next : Program ν α)
  | note (note : ν) (next : Program ν α)

/-- What programs work on. -/
structure Workspace (ν : Type) where
  session : Session
  context : Context
  journal : List ν

abbrev WorkM (ν : Type) := EStateM Fault (Workspace ν)

namespace Workspace

/-- Work on the session of a workspace. -/
def onSession {ν α : Type} (x : SessionM α) : WorkM ν α := fun w =>
  match x w.session with
  | .ok a s => .ok a { w with session := s }
  | .error f s => .error f { w with session := s }

def onContext {ν : Type} (f : Context → Context) : WorkM ν Unit :=
  modify fun w => { w with context := f w.context }

/-- Do an errand in the session of a workspace. -/
def onErrand {ν : Type} (held : Option String) (e : Errand) (w : Workspace ν) :
    Option Waited × Workspace ν :=
  let (answer, s) := e.run held w.session
  (answer, { w with session := s })

end Workspace

namespace Program

variable {ν α β : Type}

/-- One program after the other. -/
def andThen (p : Program ν α) (f : α → Program ν β) : Program ν β :=
  match p with
  | done a => f a
  | fault c => fault c
  | look k => look fun s => (k s).andThen f
  | operate op k => operate op fun r => (k r).andThen f
  | submit o v l k => submit o v l fun s => (k s).andThen f
  | attend e held k => attend e held fun a => (k a).andThen f
  | emit m p => emit m (p.andThen f)
  | note n p => note n (p.andThen f)

instance : Monad (Program ν) where
  pure := done
  bind := andThen

/-- Do what a program says. -/
def run : Program ν α → WorkM ν α
  | done a => pure a
  | fault c => throw c
  | look k => do run (k (← get).session)
  | operate op k => do
    let r ← Workspace.onSession (Session.onBroker op.run)
    run (k r)
  | submit o v locked k => do
    let s ← Workspace.onSession (Session.submit o v locked)
    Workspace.onContext fun c => c.track o.asset s
    run (k s)
  | attend e held k => do
    let a ← modifyGet (Workspace.onErrand held e)
    run (k a)
  | emit m p => do
    Workspace.onContext fun c => c.emit m
    run p
  | note n p => do
    modify fun w => { w with journal := w.journal ++ [n] }
    run p

end Program
end OutcomeMarket

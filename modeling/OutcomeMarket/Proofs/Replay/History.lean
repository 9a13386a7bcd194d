import OutcomeMarket.Proofs.Order.Passing
import OutcomeMarket.Replay.Backtest

/-! The history of an account in the hands of a strategy. Programs, orders and the replay around them reach the
history through the operations of the account only, so that it grows wherever a run may end. -/
namespace OutcomeMarket

/-- Whatever the state, a list in it only grows. -/
def Grows {ε σ α τ : Type} (view : σ → List τ) (x : EStateM ε σ α) : Prop := ∀ s, view s <+: view (after x s)

section Sequence

variable {ε σ α β τ : Type} {view : σ → List τ} {x : EStateM ε σ α} {f : α → EStateM ε σ β} {s t : σ} {a : α}

theorem grows_of_eq (h : ∀ s, view (after x s) = view s) : Grows view x := by
  intro s
  rw [h s]

theorem grows_pure (a : α) : Grows view (pure a : EStateM ε σ α) := grows_of_eq fun _ => rfl

theorem grows_throw (e : ε) : Grows view (throw e : EStateM ε σ α) := grows_of_eq fun _ => rfl

theorem grows_get : Grows view (get : EStateM ε σ σ) := grows_of_eq fun _ => rfl

theorem grows_lift (y : Except ε α) : Grows view (liftM y : EStateM ε σ α) :=
  grows_of_eq fun _ => by cases y <;> rfl

theorem grows_modify {g : σ → σ} (h : ∀ s, view (g s) = view s) : Grows view (modify g : EStateM ε σ Unit) :=
  grows_of_eq h

theorem Grows.bind (hx : Grows view x) (hf : ∀ a, Grows view (f a)) : Grows view (x >>= f) := by
  intro s
  have h := hx s
  rw [after_bind]
  cases hs : x s with
  | ok a t =>
    rw [after_of_ok hs] at h
    exact h.trans (hf a t)
  | error e t =>
    rw [after_of_error hs] at h
    exact h

theorem Grows.map (hx : Grows view x) (g : α → β) : Grows view (g <$> x) := by
  intro s
  have hm : after (g <$> x) s = after x s := by
    unfold after
    simp only [Functor.map, EStateM.map]
    cases x s <;> rfl
  rw [hm]
  exact hx s

theorem Grows.discard (hx : Grows view x) : Grows view (Functor.discard x) := hx.map _

theorem Grows.of_ok (h : Grows view x) (hx : x s = .ok a t) : view s <+: view t := by
  have hs := h s
  rwa [after_of_ok hx] at hs

end Sequence

section Levels

variable {α ν : Type}

theorem grows_of_writes {k : ℕ} {x : BrokerM α} (h : Broker.Writes k x) : Grows Broker.trades x := by
  intro b
  obtain ⟨ts, ht, -⟩ := h.grows b
  exact ⟨ts, ht.symm⟩

def Session.trades (s : Session) : List Trade := s.broker.trades

def Workspace.trades (w : Workspace ν) : List Trade := w.session.trades

theorem Session.grows_onBroker {x : BrokerM α} (h : Grows Broker.trades x) :
    Grows Session.trades (Session.onBroker x) := by
  intro s
  have hs := h s.broker
  unfold after onBroker at *
  cases hx : x s.broker <;> rwa [hx] at hs

theorem Workspace.grows_onSession {x : SessionM α} (h : Grows Session.trades x) :
    Grows Workspace.trades (onSession (ν := ν) x) := by
  intro w
  have hw := h w.session
  unfold after onSession at *
  cases hx : x w.session <;> rwa [hx] at hw

theorem Workspace.grows_onContext (f : Context → Context) :
    Grows Workspace.trades (onContext (ν := ν) f) := grows_modify fun _ => rfl

/-- A fault ends a replay as a halt. -/
theorem run_faultable_eq_ok_iff {σ : Type} {y : Faultable α} {a : α} {s t : σ} :
    (liftM y : EStateM Halt σ α) s = .ok a t ↔ y = .ok a ∧ s = t := by
  have hl : (liftM y : EStateM Halt σ α) = liftM (liftM y : Halting α) := rfl
  rw [hl, run_lift_eq_ok_iff]
  exact and_congr_left fun _ => mapError_eq_ok_iff

end Levels

theorem Order.writes_fillNow (o : Order) (locked : Bool) (book : Book) :
    Broker.Writes 1 (o.fillNow locked book) := by
  unfold fillNow
  split
  · exact Broker.writes_pure _
  · exact (o.writes_trade book).followed fun _ => Broker.writes_pure _

theorem Session.trades_delay (s : Session) (o : Order) (v : Venue) : (s.delay o v).2.trades = s.trades := by
  unfold delay
  split <;> rfl

theorem Session.grows_submit (o : Order) (v : Venue) (locked : Bool) : Grows Session.trades (submit o v locked) := by
  unfold submit
  refine grows_get.bind fun s => ?_
  split
  · refine grows_get.bind fun s => ?_
    refine (grows_onBroker (grows_of_writes (o.writes_fillNow locked _))).bind fun ⟨answer, book⟩ => ?_
    refine (grows_modify fun s => by unfold leaveBook; split <;> rfl).bind fun _ => ?_
    cases answer <;> exact grows_pure _
  · exact grows_of_eq fun s => s.trades_delay o v

/-- The history grows also while time passes. -/
theorem Session.trades_of_strides {s s' : Session} (h : Strides s s') : s.trades <+: s'.trades := by
  induction h with
  | refl => exact List.prefix_refl _
  | tail _ h ih =>
    cases h with
    | turned | rewritten => exact ih
    | @fired n d held =>
      refine ih.trans ?_
      unfold trades
      rw [broker_fire]
      exact grows_of_writes (d.order.writes_fillAfterDelay _ _) _

theorem Workspace.grows_onErrand {ν : Type} (held : Option String) (e : Errand) :
    Grows Workspace.trades (modifyGet (onErrand held e) : WorkM ν (Option Waited)) :=
  fun w => Session.trades_of_strides (e.strides held w.session)

/-- Whatever a program does to its account, the history keeps its beginning. -/
theorem Program.grows_run {ν α : Type} (p : Program ν α) : Grows Workspace.trades p.run := by
  induction p with
  | done a => exact grows_pure a
  | fault c => exact grows_throw c
  | look k ih => exact grows_get.bind fun w => ih _
  | operate op k ih =>
    have h := Session.grows_onBroker (grows_of_writes (Broker.writes_run op))
    exact (Workspace.grows_onSession h).bind fun r => ih r
  | submit o v locked k ih =>
    refine (Workspace.grows_onSession (Session.grows_submit o v locked)).bind fun s => ?_
    exact (Workspace.grows_onContext _).bind fun _ => ih s
  | attend e held k ih => exact (Workspace.grows_onErrand held e).bind fun a => ih a
  | emit m p ih => exact (Workspace.grows_onContext _).bind fun _ => ih
  | note n p ih =>
    refine (grows_modify fun _ => by rfl).bind fun _ => ?_
    exact ih

namespace Replay

variable {ν σ ω α : Type}

def trades (r : Replay ν σ) : List Trade := r.workspace.trades

theorem grows_onWorkspace {x : WorkM ν α} (h : Grows Workspace.trades x) :
    Grows trades (onWorkspace (σ := σ) x) := by
  intro r
  have hr := h r.workspace
  unfold after onWorkspace at *
  cases hx : x r.workspace <;> rwa [hx] at hr

theorem grows_onBroker {k : ℕ} {x : BrokerM α} (h : Broker.Writes k x) :
    Grows trades (onBroker (ν := ν) (σ := σ) x) :=
  grows_onWorkspace (Workspace.grows_onSession (Session.grows_onBroker (grows_of_writes h)))

theorem grows_present (s : Strategy ν ω σ) (x : ω) : Grows trades (present s x) := by
  unfold present
  refine grows_get.bind fun r => (grows_onWorkspace (Program.grows_run _)).bind fun ⟨answer, state⟩ => ?_
  refine (grows_modify fun _ => by rfl).bind fun _ => ?_
  exact grows_lift _

theorem grows_lift_fault (y : Faultable α) : Grows trades (liftM y : ReplayM ν σ α) :=
  grows_of_eq fun _ => by cases y <;> rfl

theorem grows_aggregate (t : Tick) : Grows trades (aggregate (ν := ν) (σ := σ) t) := by
  unfold aggregate
  refine grows_get.bind fun r => ?_
  split
  · exact grows_pure _
  · refine Grows.bind (grows_lift_fault _) fun ⟨closed, a⟩ => ?_
    refine (grows_modify fun _ => by rfl).bind fun _ => ?_
    exact grows_pure closed

theorem grows_mark (time : Instant) : Grows trades (mark (ν := ν) (σ := σ) time) := by
  unfold mark
  exact (grows_onBroker Broker.writes_markEquity).bind fun equity => grows_modify fun _ => rfl

theorem grows_dispatch (t : Tick) (s : ReplayStrategy ν σ) : Grows trades (dispatch t s) := by
  cases s with
  | ticks s => exact grows_present s t
  | candles _ s =>
    refine (grows_aggregate t).bind fun closed => ?_
    cases closed with
    | none => exact grows_pure _
    | some c => exact grows_present s c

theorem grows_step (s : ReplayStrategy ν σ) (t : Tick) : Grows trades (step s t) := by
  unfold step
  refine (grows_onBroker (Broker.writes_setClock _)).bind fun _ => ?_
  refine (grows_onBroker (Broker.writes_setPrice ..)).bind fun _ => ?_
  exact (grows_dispatch t s).bind fun _ => grows_mark t.time

theorem grows_flush (s : ReplayStrategy ν σ) : Grows trades (flush s) := by
  cases s with
  | ticks s => exact grows_pure _
  | candles _ s =>
    refine grows_get.bind fun r => ?_
    split
    · exact grows_pure _
    · refine (grows_modify fun _ => by rfl).bind fun _ => ?_
      split
      · exact grows_present s _
      · exact grows_pure _

theorem grows_settle (c : BacktestConfig) (asset : String) (price : Decimal) :
    Grows trades (settle (ν := ν) (σ := σ) c asset price) := by
  unfold settle
  split
  · exact (grows_onBroker Broker.writes_resolve).discard
  · split
    · exact (grows_onBroker Broker.writes_liquidate).discard
    · exact grows_pure _

end Replay
end OutcomeMarket

import OutcomeMarket.Proofs.Account.Frame
import OutcomeMarket.Proofs.Order.Passing
import OutcomeMarket.Replay.Backtest

/-! What strategies may do, and what that amounts to for the session and the account. A program is a tree of requests
and answers; a rule for its requests holds on every path, whatever the answers are. -/
namespace OutcomeMarket

/-- Whatever the answers, a program does only operations that it may do, and sends only orders that it may send. -/
def Program.Uses {ν α : Type} (may : Operation → Prop) (sends : Order → Venue → Prop) : Program ν α → Prop
  | done _ | fault _ => True
  | look next => ∀ s, (next s).Uses may sends
  | operate op next => may op ∧ ∀ r, (next r).Uses may sends
  | submit o v _ next => sends o v ∧ ∀ s, (next s).Uses may sends
  | attend _ _ next => ∀ a, (next a).Uses may sends
  | emit _ p | note _ p => p.Uses may sends

/-- The rule holds for all that a strategy does, in any state and whatever it is shown. -/
def Strategy.Uses {ν ω σ : Type} (may : Operation → Prop) (sends : Order → Venue → Prop)
    (s : Strategy ν ω σ) : Prop := ∀ state x, (s.react state x).Uses may sends

def ReplayStrategy.Uses {ν σ : Type} (may : Operation → Prop) (sends : Order → Venue → Prop) :
    ReplayStrategy ν σ → Prop
  | ticks s => s.Uses may sends
  | candles _ s => s.Uses may sends

/-- The operation that fills an order at the touch of a book. -/
def Order.operation (o : Order) (book : Book) : Operation :=
  let side := o.intent.touchSide
  if o.intent.isBuy then .buy o.asset o.intent.side (book.bestPrice side) o.dollars (book.bestSize side)
  else .sellAll o.asset o.intent.side (book.bestPrice side) (book.bestSize side)

namespace Session

/-- One thing that a program does in a session. -/
inductive Deed (may : Operation → Prop) (sends : Order → Venue → Prop) (s : Session) : Session → Prop where
  | operated {op : Operation} {r : Option Decimal} {s' : Session} (hop : may op)
      (h : onBroker op.run s = .ok r s') : Deed may sends s s'
  | submitted {o : Order} {v : Venue} {locked : Bool} {answer : Submission} {s' : Session} (ho : sends o v)
      (h : submit o v locked s = .ok answer s') : Deed may sends s s'
  | strode {s' : Session} (h : Stride s s') : Deed may sends s s'

variable {α : Type} {s s' : Session} {a : α} {o : Order} {v : Venue} {locked : Bool} {answer : Submission}

theorem onBroker_eq_ok_iff {x : BrokerM α} :
    onBroker x s = .ok a s' ↔ ∃ b, x s.broker = .ok a b ∧ s' = { s with broker := b } := by
  unfold onBroker
  cases x s.broker with
  | ok a' b =>
    constructor
    · rintro ⟨⟩
      exact ⟨b, rfl, rfl⟩
    · rintro ⟨b', ⟨⟩, rfl⟩
      rfl
  | error f b => simp

theorem run_operation {book : Book} {b b' : Broker} {n : Decimal}
    (h : o.intent.fill o.asset (book.bestPrice o.intent.touchSide) o.dollars (book.bestSize o.intent.touchSide) b =
      .ok n b') : (o.operation book).run b = .ok (some n) b' := by
  unfold OrderIntent.fill at h
  unfold Order.operation
  by_cases hb : o.intent.isBuy = true
  · rw [if_pos hb] at h
    dsimp only
    rw [if_pos hb]
    exact run_map_eq_ok_iff.2 ⟨n, h, rfl⟩
  · rw [if_neg hb] at h
    dsimp only
    rw [if_neg hb]
    exact run_map_eq_ok_iff.2 ⟨n, h, rfl⟩

theorem run_operation_of_trade {book book' : Book} {b b' : Broker} {n : Decimal}
    (h : o.trade book b = .ok (n, book') b') : (o.operation book).run b = .ok (some n) b' := by
  unfold Order.trade at h
  obtain ⟨filled, u, hf, h⟩ := run_bind_eq_ok_iff.1 h
  by_cases h0 : .zero < filled
  · rw [if_pos h0] at h
    obtain ⟨left, -, h⟩ := run_lift_bind_eq_ok_iff.1 h
    obtain ⟨⟨⟩, rfl⟩ := run_pure_eq_ok_iff.1 h
    exact run_operation hf
  · rw [if_neg h0] at h
    obtain ⟨⟨⟩, rfl⟩ := run_pure_eq_ok_iff.1 h
    exact run_operation hf

/-- A submission does nothing to the account, or fills the order. -/
theorem broker_of_submit (h : submit o v locked s = .ok answer s') :
    s'.broker = s.broker ∨ ∃ n, (o.operation (s.venueBook v)).run s.broker = .ok (some n) s'.broker := by
  by_cases hl : s.latency = 0
  · obtain ⟨r, book, b, hf, -, rfl⟩ := submit_eq_ok_of_prompt hl h
    rw [broker_leaveBook]
    cases locked with
    | true =>
      cases hf
      exact .inl rfl
    | false =>
      obtain ⟨⟨n, left⟩, u, ht, h⟩ := run_bind_eq_ok_iff.1 hf
      obtain ⟨-, rfl⟩ := run_pure_eq_ok_iff.1 h
      exact .inr ⟨n, run_operation_of_trade ht⟩
  · rw [submit_eq_ok_of_delayed hl h]
    exact .inl (broker_delay s o v)

end Session

section Run

variable {ν α : Type} {may : Operation → Prop} {sends : Order → Venue → Prop} {p : Program ν α}
  {w w' : Workspace ν} {a : α}

theorem Workspace.onSession_eq_ok_iff {x : SessionM α} :
    onSession x w = .ok a w' ↔ ∃ s, x w.session = .ok a s ∧ w' = { w with session := s } := by
  unfold onSession
  cases x w.session with
  | ok a' s =>
    constructor
    · rintro ⟨⟩
      exact ⟨s, rfl, rfl⟩
    · rintro ⟨s', ⟨⟩, rfl⟩
      rfl
  | error f s => simp

/-- What a program that keeps a rule does to its session is made of deeds that the rule allows. -/
theorem Program.Uses.deeds (hp : p.Uses may sends) (h : p.run w = .ok a w') :
    Relation.ReflTransGen (Session.Deed may sends) w.session w'.session := by
  induction p generalizing w with
  | done a' =>
    obtain ⟨-, rfl⟩ := run_pure_eq_ok_iff.1 h
    exact .refl
  | fault c => cases h
  | look next ih => exact ih _ (hp _) h
  | operate op next ih =>
    obtain ⟨hop, hnext⟩ := hp
    obtain ⟨r, u, hr, h⟩ := run_bind_eq_ok_iff.1 h
    obtain ⟨s, hs, rfl⟩ := Workspace.onSession_eq_ok_iff.1 hr
    have hdeed : Session.Deed may sends w.session s := .operated hop hs
    exact .head hdeed (ih r (hnext r) h)
  | submit o v locked next ih =>
    obtain ⟨ho, hnext⟩ := hp
    obtain ⟨answer, u, hr, h⟩ := run_bind_eq_ok_iff.1 h
    obtain ⟨s, hs, rfl⟩ := Workspace.onSession_eq_ok_iff.1 hr
    have hdeed : Session.Deed may sends w.session s := .submitted ho hs
    exact .head hdeed (ih answer (hnext answer) h)
  | attend e held next ih =>
    have hstrides : Session.Strides w.session (e.run held w.session).2 := e.strides held w.session
    have hdeeds : Relation.ReflTransGen (Session.Deed may sends) w.session (e.run held w.session).2 :=
      hstrides.lift id fun _ _ => .strode
    exact hdeeds.trans (ih _ (hp _) h)
  | emit m p ih =>
    obtain ⟨_, u, hm, h⟩ := run_bind_eq_ok_iff.1 h
    obtain rfl := run_modify_eq_ok_iff.1 hm
    have hrest := ih hp h
    exact hrest
  | note n p ih =>
    obtain ⟨_, u, hm, h⟩ := run_bind_eq_ok_iff.1 h
    obtain rfl := run_modify_eq_ok_iff.1 hm
    have hrest := ih hp h
    exact hrest

end Run
end OutcomeMarket

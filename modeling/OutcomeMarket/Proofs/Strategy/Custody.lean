import OutcomeMarket.Proofs.Account.Closing
import OutcomeMarket.Proofs.Order.Atomicity
import OutcomeMarket.Proofs.Strategy.Conduct

/-! An account in the custody of a strategy that trades one asset, by operations, by orders and by waiting for its
orders. Whatever it does is in the history, except for one thing: a delayed sale that faults may be counted as a win
or a loss although there is no record of it. -/
namespace OutcomeMarket

/-- What a strategy may do that trades one asset only and leaves the clock alone. -/
abbrev Operation.On (asset : String) : Operation → Prop := Operation.Within (· = asset) fun _ => True

theorem cashAfter_append {cash cash' : Decimal} {ts : List Trade} (h : cashAfter cash ts = .ok cash')
    (us : List Trade) : cashAfter cash (ts ++ us) = cashAfter cash' us := by
  unfold cashAfter at *
  rw [List.foldlM_append, h]
  rfl

namespace Broker

/-- From one account to another the history grows by these records. Cash and counters move as they say, but for so
many exits without a record. -/
structure Accrues (b b' : Broker) (ts : List Trade) (lost : ℕ) : Prop where
  trades : b'.trades = b.trades ++ ts
  cash : cashAfter b.cash ts = .ok b'.cash
  actions : b'.actions = b.actions + ts.countP (·.kind.isAction)
  exits : b'.wins + b'.losses = b.wins + b.losses + ts.countP (·.kind.isExit) + lost

variable {b b' u : Broker} {asset : String} {side : OutcomeSide} {quote : Decimal} {fill : Fill} {op : Operation}
  {r : Option Decimal}

theorem accrues_refl (b : Broker) : Accrues b b [] 0 := ⟨(List.append_nil _).symm, rfl, rfl, rfl⟩

theorem Untouched.accrues (h : Untouched b b') : Accrues b b' [] 0 := by
  unfold Untouched at h
  rw [h]
  exact ⟨(List.append_nil _).symm, rfl, rfl, rfl⟩

/-- The statement that tells an account as it is. -/
def statement (b : Broker) : Statement := ⟨b.cash, b.position, b.actions, b.wins, b.losses, b.tradesExecuted, none⟩

theorem audits_statement (b : Broker) : b.statement.Audits b :=
  ⟨⟨rfl, fun _ _ => rfl, rfl, rfl, rfl⟩, rfl, fun _ h => nomatch h⟩

theorem accrues_of_run (h : op.run b = .ok r b') : ∃ ts, Accrues b b' ts 0 := by
  obtain ⟨ts, hp⟩ := posts_of_run h
  obtain ⟨s, hs, ha⟩ := hp.audits b.statement (audits_statement b)
  have ht := Statement.tallies_of_replay hs
  refine ⟨ts, hp.trades, ?_, ?_, ?_⟩
  · rw [← ha.cash]
    exact ht.cash
  · rw [← ha.actions]
    exact ht.actions
  · rw [← ha.wins, ← ha.losses]
    exact ht.exits

/-- A broken sale is an exit without a record, or one that was booked in full. -/
theorem Interrupted.accrues (h : Interrupted (b.withPrice asset quote) asset side fill b') :
    ∃ ts lost, lost ≤ 1 ∧ Accrues b b' ts lost := by
  have hx := h.exits
  cases h with
  | unpaid => exact ⟨[], 1, Nat.le_refl 1, (List.append_nil _).symm, rfl, rfl, hx⟩
  | @unvalued rest cash peak hr hc =>
    obtain ⟨hbuy, haction, hexit⟩ := TradeKind.classes_sellOf side
    refine ⟨[_], 0, Nat.zero_le 1, rfl, ?_, ?_, ?_⟩
    · unfold cashAfter Trade.book
      rw [List.foldlM_cons, hbuy, hexit]
      simp only [Bool.false_eq_true, if_false, if_true]
      have hc : b.cash.add fill.value = .ok cash := hc
      rw [hc]
      rfl
    · rw [List.countP_singleton, haction]
      rfl
    · rw [List.countP_singleton, hexit]
      exact hx

/-- It takes no more shares away than there are. -/
theorem Interrupted.frame (hle : fill.shares ≤ (b.position asset side).shares)
    (h : Interrupted (b.withPrice asset quote) asset side fill b') :
    Frame (· = asset) (fun _ => True) b b' := by
  have hn : Frame (· = asset) (fun _ => True) b (b.withPrice asset quote) := frame_withPrice trivial b asset
  refine hn.trans ?_
  cases h with
  | @unpaid rest c hr =>
    have hrest := Decimal.zero_le_sub hle hr
    refine ⟨rfl, rfl, fun other hne t => ?_, fun _ _ hp => .inl hp, ⟨[], (List.append_nil _).symm, by simp⟩,
      fun h0 other t => ?_⟩
    · rw [position_of_set rfl, if_neg fun he => hne he.1]
      rfl
    · rw [position_of_set rfl]
      split
      · exact hrest
      · exact h0 other t
  | @unvalued rest cash peak hr hc =>
    have hrest := Decimal.zero_le_sub hle hr
    have hs : Frame (· = asset) (fun _ => True) (b.withPrice asset quote)
        ((b.withPrice asset quote).withSale asset side fill rest cash) :=
      frame_written rfl rfl rfl rfl rfl rfl rfl fun _ => hrest
    exact hs.trans (.of_eq rfl rfl rfl rfl rfl)

/-- From one account to another only this asset was traded, while the clock stood still, and the history tells what
has changed, but for so many exits. -/
structure Traded (asset : String) (b b' : Broker) (lost : ℕ) : Prop where
  frame : Frame (· = asset) (fun _ => True) b b'
  accrues : ∃ ts, Accrues b b' ts lost

theorem traded_refl (asset : String) (b : Broker) : Traded asset b b 0 := ⟨.refl b, [], accrues_refl b⟩

theorem traded_of_run (hop : op.On asset) (h : op.run b = .ok r b') : Traded asset b b' 0 :=
  ⟨frame_of_run hop h, accrues_of_run h⟩

theorem Untouched.traded (h : Untouched b b') (asset : String) : Traded asset b b' 0 := by
  refine ⟨?_, [], h.accrues⟩
  unfold Untouched at h
  rw [h]
  exact ⟨rfl, rfl, fun _ _ _ => rfl, fun _ _ _ => .inr trivial, ⟨[], (List.append_nil _).symm, by simp⟩, id⟩

theorem Interrupted.traded (hle : fill.shares ≤ (b.position asset side).shares)
    (h : Interrupted (b.withPrice asset quote) asset side fill b') : ∃ lost, lost ≤ 1 ∧ Traded asset b b' lost := by
  obtain ⟨ts, lost, hlost, ha⟩ := h.accrues
  exact ⟨lost, hlost, h.frame hle, ts, ha⟩

end Broker

open Broker

namespace Order

variable {o : Order} {book : Book} {b b' : Broker} {f : Fault}

theorem on_operation (o : Order) (book : Book) : (o.operation book).On o.asset := by
  unfold operation
  dsimp only
  split
  · exact ⟨rfl, trivial⟩
  · exact ⟨rfl, trivial⟩

/-- An exit can be lost by a sale, and by no buy. -/
theorem traded_of_trade_error (h : o.trade book b = .error f b') :
    ∃ lost, lost ≤ (if o.intent.isBuy then 0 else 1) ∧ Traded o.asset b b' lost := by
  obtain hfill | ⟨n, hfill, -⟩ := trade_eq_error h
  · obtain ⟨hu, -⟩ | ⟨fill, ⟨hsell, limit, -, hq⟩, hi⟩ := state_of_fill_error hfill
    · exact ⟨0, Nat.zero_le _, hu.traded o.asset⟩
    · obtain ⟨-, -, hle, -⟩ := quoteSell_eq_some hq
      have hle : fill.shares ≤ (b.position o.asset o.intent.side).shares := hle
      obtain ⟨lost, hlost, ht⟩ := Interrupted.traded hle hi
      rw [hsell]
      exact ⟨lost, hlost, ht⟩
  · -- the fill was booked, and only the book could not give it away
    exact ⟨0, Nat.zero_le _, traded_of_run (o.on_operation book) (Session.run_operation hfill)⟩

/-- What the decision of a delayed order does to the account. -/
theorem traded_of_fillAfterDelay (o : Order) (locked : Bool) (book : Book) (b : Broker) :
    match o.fillAfterDelay locked book b with
    | .ok _ b' => Traded o.asset b b' 0
    | .error _ b' => ∃ lost, lost ≤ (if o.intent.isBuy then 0 else 1) ∧ Traded o.asset b b' lost := by
  cases locked with
  | true => exact traded_refl o.asset b
  | false =>
    by_cases hp : o.Passes book
    · rw [fillAfterDelay_of_passes hp]
      cases ht : o.trade book b with
      | ok x b' => exact traded_of_run (o.on_operation book) (Session.run_operation_of_trade ht)
      | error f b' => exact traded_of_trade_error ht
    · obtain ⟨price, cause, -, hf⟩ := fillAfterDelay_of_not_passes (b := b) hp
      rw [hf]
      have hr : (Operation.reject o.asset o.intent.rejection price).run b =
          .ok none (b.withRecord o.asset o.intent.rejection price .zero .zero .zero) :=
        run_bind_eq_ok_iff.2 ⟨(), _, o.run_reject price b, rfl⟩
      have hop : (Operation.reject o.asset o.intent.rejection price).On o.asset := trivial
      exact traded_of_run hop hr

end Order

/-- Whether a delayed order is a sale that has faulted. -/
def DelayedOrder.isBroken (d : DelayedOrder) : Bool :=
  match d.stage with
  | .faulted _ => !d.order.intent.isBuy
  | _ => false

namespace Session

/-- How many delayed sales have faulted. -/
def brokenSales (s : Session) : ℕ := s.orders.toList.countP (·.isBroken)

/-- A session in which one asset was traded: nothing else is held or on order, and the history tells cash and counters,
but for no more exits than there are broken sales. Without latency there are no orders to break. -/
structure Kept (config : BrokerConfig) (asset : String) (s : Session) : Prop where
  config_eq : s.broker.config = config
  unshorted : s.broker.Unshorted
  others : ∀ other, other ≠ asset → ∀ side, s.broker.position other side = .flat
  cash : cashAfter config.startingCash s.broker.trades = .ok s.broker.cash
  actions : s.broker.actions = s.broker.trades.countP (·.kind.isAction)
  exits : ∃ lost, lost ≤ s.brokenSales ∧
    s.broker.wins + s.broker.losses = s.broker.trades.countP (·.kind.isExit) + lost
  orders : ∀ (n : ℕ) (d : DelayedOrder), s.orders[n]? = some d → d.order.asset = asset
  latency_eq : s.latency = config.latencyMillis
  idle : config.latencyMillis = 0 → s.orders = #[]

/-- Deeds of a strategy that trades one asset only. -/
abbrev Works (asset : String) : Session → Session → Prop :=
  Relation.ReflTransGen (Deed (Operation.On asset) fun o _ => o.asset = asset)

variable {config : BrokerConfig} {asset : String} {s s' : Session} {n lost : ℕ} {d d' : DelayedOrder}

theorem isBroken_of_not_isDecision (h : ¬ d.stage.IsDecision) : d.isBroken = false := by
  unfold DelayedOrder.isBroken
  split
  · rename_i hf
    rw [hf] at h
    exact absurd trivial h
  · rfl

theorem isBroken_of_rewritten (ho : d'.order = d.order)
    (hs : d'.stage = d.stage ∨ ¬ d.stage.IsDecision ∧ ¬ d'.stage.IsDecision) : d.isBroken = d'.isBroken := by
  obtain hs | ⟨hs, hs'⟩ := hs
  · unfold DelayedOrder.isBroken
    rw [hs, ho]
  · rw [isBroken_of_not_isDecision hs, isBroken_of_not_isDecision hs']

theorem brokenSales_set {xs : Array DelayedOrder} (hs : s'.orders = xs.setIfInBounds n d') (hx : xs = s.orders)
    (hd : s.orders[n]? = some d) :
    s'.brokenSales + d.isBroken.toNat = s.brokenSales + d'.isBroken.toNat := by
  obtain ⟨hn, hget⟩ := Array.getElem?_eq_some_iff.1 hd
  unfold brokenSales
  rw [hs, hx, Array.toList_setIfInBounds, List.countP_set hn, Array.getElem_toList, hget]
  have hcount : ∀ b : Bool, (if b = true then 1 else 0) = b.toNat := by decide
  have hle : d.isBroken.toNat ≤ s.orders.toList.countP (·.isBroken) := by
    cases hb : d.isBroken with
    | false => exact Nat.zero_le _
    | true => exact List.countP_pos_iff.2 ⟨d, Array.mem_toList_iff.2 (Array.mem_of_getElem? hd), hb⟩
  rw [hcount, hcount]
  omega

theorem kept_new (config : BrokerConfig) (visiting : Visiting) (asset : String) :
    (new (.new config visiting) config.latencyMillis).Kept config asset := by
  refine ⟨rfl, unshorted_new config visiting, fun other _ side => position_new config visiting other side, rfl, rfl,
    ⟨0, Nat.le_refl 0, rfl⟩, fun n d hd => ?_, rfl, fun _ => rfl⟩
  cases hd

/-- Where its one asset is not held, nothing is. -/
theorem Kept.flat (h : s.Kept config asset) (hf : s.broker.Flat asset) (other : String) : s.broker.Flat other := by
  by_cases he : other = asset
  · rw [he]
    exact hf
  · intro side
    rw [h.others other he side]
    rfl

theorem Kept.brokenSales_eq_zero (h : s.Kept config asset) (hl : config.latencyMillis = 0) : s.brokenSales = 0 := by
  unfold brokenSales
  rw [h.idle hl]
  rfl

theorem Kept.setClock (h : s.Kept config asset) (now : Instant) :
    { s with broker := { s.broker with clock := now } }.Kept config asset :=
  ⟨h.config_eq, h.unshorted, h.others, h.cash, h.actions, h.exits, h.orders, h.latency_eq, h.idle⟩

/-- What is traded of the asset is in the history, and each exit that is lost is that of a broken sale. -/
theorem Kept.traded (h : s.Kept config asset) (ht : Traded asset s.broker s'.broker lost)
    (hl : s.brokenSales + lost ≤ s'.brokenSales)
    (ho : ∀ (n : ℕ) (d : DelayedOrder), s'.orders[n]? = some d → d.order.asset = asset)
    (hw : s'.latency = s.latency) (hi : config.latencyMillis = 0 → s'.orders = #[]) : s'.Kept config asset := by
  obtain ⟨hf, ts, ha⟩ := ht
  obtain ⟨before, hbefore, hexits⟩ := h.exits
  refine ⟨hf.config.trans h.config_eq, hf.unshorted h.unshorted, fun other hne side => ?_, ?_, ?_,
    ⟨before + lost, by omega, ?_⟩, ho, hw.trans h.latency_eq, hi⟩
  · rw [hf.position other hne, h.others other hne]
  · rw [ha.trades, cashAfter_append h.cash]
    exact ha.cash
  · rw [ha.actions, h.actions, ha.trades, List.countP_append]
  · rw [ha.exits, hexits, ha.trades, List.countP_append]
    omega

theorem Kept.traded_still (h : s.Kept config asset) (ht : Traded asset s.broker s'.broker 0)
    (ho : s'.orders = s.orders) (hl : s'.latency = s.latency) : s'.Kept config asset := by
  refine h.traded ht ?_ ?_ hl ?_
  · unfold brokenSales
    rw [ho]
    exact Nat.le_refl _
  · rw [ho]
    exact h.orders
  · rw [ho]
    exact h.idle

/-- An order is written anew for the same asset. -/
theorem Kept.traded_set (h : s.Kept config asset) (hd : s.orders[n]? = some d)
    (ht : Traded asset s.broker s'.broker lost) (ho : s'.orders = s.orders.setIfInBounds n d')
    (hl : s'.latency = s.latency) (hasset : d'.order = d.order)
    (hlost : d.isBroken.toNat + lost ≤ d'.isBroken.toNat) : s'.Kept config asset := by
  have hset := brokenSales_set ho rfl hd
  refine h.traded ht (by omega) (fun m e he => ?_) hl fun hzero => ?_
  · rw [ho, Array.getElem?_setIfInBounds] at he
    split at he
    · split at he
      · cases he
        rw [hasset]
        exact h.orders n d hd
      · cases he
    · exact h.orders m e he
  · rw [h.idle hzero] at hd
    cases hd

theorem Kept.submit {o : Order} {v : Venue} {locked : Bool} {answer : Submission} (h : s.Kept config asset)
    (ho : o.asset = asset) (hs : submit o v locked s = .ok answer s') :
    s'.Kept config asset ∧ Traded asset s.broker s'.broker 0 := by
  have ht : Traded asset s.broker s'.broker 0 := by
    obtain hb | ⟨r, hb⟩ := broker_of_submit hs
    · rw [hb]
      exact traded_refl asset s.broker
    · exact traded_of_run (ho ▸ o.on_operation _) hb
  refine ⟨?_, ht⟩
  by_cases hl : s.latency = 0
  · obtain ⟨r, book, b, -, -, rfl⟩ := submit_eq_ok_of_prompt hl hs
    obtain ⟨horders, -, hlatency, -⟩ := leaveBook_eq { s with broker := b } v book
    exact h.traded_still ht horders hlatency
  · obtain rfl := submit_eq_ok_of_delayed hl hs
    cases hf : s.inFlight.acquire? o.asset with
    | none =>
      rw [delay_of_inFlight hf]
      exact h
    | some f =>
      rw [delay_of_free hf] at ht ⊢
      refine h.traded ht ?_ (fun m d hd => ?_) rfl fun hzero => absurd (h.latency_eq.trans hzero) hl
      · unfold brokenSales
        rw [Array.toList_push, List.countP_append]
        exact Nat.le_add_right _ _
      · have hd : (s.orders.push ⟨o, v, s.now + timer s.latency, .pending, false⟩)[m]? = some d := hd
        rw [Array.getElem?_push] at hd
        split at hd
        · cases hd
          exact ho
        · exact h.orders m d hd

theorem Kept.fire (h : s.Kept config asset) (held : Option String) (hd : s.orders[n]? = some d)
    (hp : d.stage = .pending) :
    (s.fire held n d).Kept config asset ∧ ∃ lost, Traded asset s.broker (s.fire held n d).broker lost := by
  have hwhole : d.isBroken = false := isBroken_of_not_isDecision (hp ▸ id)
  have ht := d.order.traded_of_fillAfterDelay (isHeld held d.venue) (s.venueBook d.venue) s.broker
  rw [h.orders n d hd] at ht
  cases hf : d.order.fillAfterDelay (isHeld held d.venue) (s.venueBook d.venue) s.broker with
  | ok x b =>
    rw [hf] at ht
    rw [fire_of_ok hf]
    obtain ⟨horders, -, hlatency, -, hbroker⟩ := leaveBook_eq { s with broker := b } d.venue x.2
    have ht : Traded asset s.broker ({ s with broker := b }.leaveBook d.venue x.2).broker 0 := hbroker ▸ ht
    have hset : (({ s with broker := b }.leaveBook d.venue x.2).finish n d (.decided x.1)).orders =
        s.orders.setIfInBounds n { d with stage := .decided x.1 } := by rw [finish, horders]
    refine ⟨h.traded_set hd ht hset hlatency rfl ?_, 0, ht⟩
    rw [hwhole]
    exact Nat.le_refl 0
  | error f b =>
    rw [hf] at ht
    rw [fire_of_error hf]
    obtain ⟨lost, hlost, ht⟩ := ht
    have hset : ({ s with broker := b }.finish n d (.faulted f)).orders =
        s.orders.setIfInBounds n { d with stage := .faulted f } := rfl
    refine ⟨h.traded_set hd ht hset rfl rfl ?_, lost, ht⟩
    rw [hwhole, Bool.toNat_false, Nat.zero_add]
    refine Nat.le_trans hlost ?_
    change _ ≤ (!d.order.intent.isBuy).toNat
    cases d.order.intent.isBuy <;> exact Nat.le_refl _

theorem Kept.deed (h : s.Kept config asset)
    (hd : Deed (Operation.On asset) (fun o _ => o.asset = asset) s s') :
    s'.Kept config asset ∧ ∃ lost, Traded asset s.broker s'.broker lost := by
  cases hd with
  | operated hop hr =>
    obtain ⟨b, hb, rfl⟩ := onBroker_eq_ok_iff.1 hr
    have ht : Traded asset s.broker b 0 := traded_of_run hop hb
    exact ⟨h.traded_still ht rfl rfl, 0, ht⟩
  | submitted ho hs =>
    obtain ⟨hk, ht⟩ := h.submit ho hs
    exact ⟨hk, 0, ht⟩
  | strode hs =>
    have hstill : Traded asset s.broker s.broker 0 := traded_refl asset s.broker
    cases hs with
    | turned now => exact ⟨h.traded_still hstill rfl rfl, 0, hstill⟩
    | @rewritten n d d' f hd ho hv hs =>
      exact ⟨h.traded_set hd hstill rfl rfl ho (Nat.le_of_eq (congrArg Bool.toNat (isBroken_of_rewritten ho hs))), 0,
        hstill⟩
    | fired held hd hp => exact h.fire held hd hp

/-- Whatever a strategy does that trades one asset only, the session is kept. -/
theorem Kept.works (h : s.Kept config asset) (hw : Works asset s s') :
    s'.Kept config asset ∧ Frame (· = asset) (fun _ => True) s.broker s'.broker := by
  induction hw with
  | refl => exact ⟨h, .refl s.broker⟩
  | tail _ hd ih =>
    obtain ⟨hk, hf⟩ := ih
    obtain ⟨hk', lost, ht⟩ := hk.deed hd
    exact ⟨hk', hf.trans ht.frame⟩

end Session
end OutcomeMarket

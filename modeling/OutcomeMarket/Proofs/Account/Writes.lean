import OutcomeMarket.Proofs.Account.Booking
import OutcomeMarket.Order.Execution

/-! How many records a computation on an account can add to its history. The bound also holds for a computation
that faults half way: what it has written by then stays. -/
namespace OutcomeMarket
namespace Broker

/-- Whatever the account, the history only grows, and by at most `k` records. -/
structure Writes {α : Type} (k : ℕ) (x : BrokerM α) : Prop where
  grows : ∀ b, ∃ ts, (after x b).trades = b.trades ++ ts ∧ ts.length ≤ k

section Sequence

variable {α β : Type} {x : BrokerM α} {f : α → BrokerM β} {k m n : ℕ}

theorem Writes.mono (h : Writes m x) (hmn : m ≤ n) : Writes n x := by
  refine ⟨fun b => ?_⟩
  obtain ⟨ts, ht, hk⟩ := h.grows b
  exact ⟨ts, ht, hk.trans hmn⟩

theorem writes_of_trades_eq (h : ∀ b, (after x b).trades = b.trades) : Writes k x :=
  ⟨fun b => ⟨[], by rw [h, List.append_nil], Nat.zero_le k⟩⟩

theorem writes_pure (a : α) : Writes k (pure a : BrokerM α) := writes_of_trades_eq fun _ => rfl

theorem writes_get : Writes 0 (get : BrokerM Broker) := writes_of_trades_eq fun _ => rfl

theorem writes_modify {g : Broker → Broker} (h : ∀ b, (g b).trades = b.trades) :
    Writes 0 (modify g : BrokerM Unit) := writes_of_trades_eq h

theorem writes_lift (y : Except Fault α) : Writes 0 (liftM y : BrokerM α) :=
  writes_of_trades_eq fun _ => by cases y <;> rfl

theorem writes_checked (y : Decimal.Checked α) : Writes 0 (liftM y : BrokerM α) :=
  writes_of_trades_eq fun _ => by cases y <;> rfl

theorem writes_record (asset : String) (kind : TradeKind) (price shares value fee : Decimal) :
    Writes 1 (record asset kind price shares value fee) := ⟨fun _ => ⟨[_], rfl, le_rfl⟩⟩

/-- The records of a sequence are those of its parts. -/
theorem Writes.bind (hx : Writes m x) (hf : ∀ a, Writes n (f a)) : Writes (m + n) (x >>= f) := by
  refine ⟨fun b => ?_⟩
  obtain ⟨ts, ht, hk⟩ := hx.grows b
  cases hxb : x b with
  | ok a u =>
    have hu : after x b = u := after_of_ok hxb
    have hb : after (x >>= f) b = after (f a) u := by simp [after, Bind.bind, EStateM.bind, hxb]
    obtain ⟨us, hus, hl⟩ := (hf a).grows u
    refine ⟨ts ++ us, ?_, by rw [List.length_append]; omega⟩
    rw [hb, hus, ← hu, ht, List.append_assoc]
  | error e u =>
    have hb : after (x >>= f) b = after x b := by simp [after, Bind.bind, EStateM.bind, hxb]
    exact ⟨ts, hb ▸ ht, by omega⟩

/-- A part that writes nothing, before one that may. -/
theorem Writes.before (hx : Writes 0 x) (hf : ∀ a, Writes k (f a)) : Writes k (x >>= f) :=
  (hx.bind hf).mono (by omega)

/-- A part that may write, followed by one that writes nothing. -/
theorem Writes.followed (hx : Writes k x) (hf : ∀ a, Writes 0 (f a)) : Writes k (x >>= f) := hx.bind hf

theorem Writes.map (hx : Writes k x) (g : α → β) : Writes k (g <$> x) := by
  refine ⟨fun b => ?_⟩
  have hb : after (g <$> x) b = after x b := by
    unfold after
    simp only [Functor.map, EStateM.map]
    cases x b <;> rfl
  rw [hb]
  exact hx.grows b

theorem Writes.discard (hx : Writes k x) : Writes k (Functor.discard x) := hx.map _

end Sequence

variable {asset : String} {side : OutcomeSide} {fill : Fill} {quote dollars available outcome price : Decimal}
  {limit : Option Decimal} {kind : TradeKind}

theorem writes_classify (exit entry : Decimal) : Writes 0 (classify exit entry) :=
  writes_modify fun b => by split <;> rfl

theorem writes_setPrice (asset : String) (price : Decimal) : Writes 0 (setPrice asset price) :=
  writes_modify fun _ => rfl

theorem writes_setClock (now : Instant) : Writes 0 (setClock now) := writes_modify fun _ => rfl

theorem writes_countAction : Writes 0 countAction := writes_modify fun _ => rfl

theorem writes_countExecuted : Writes 0 countExecuted := writes_modify fun _ => rfl

theorem writes_markEquity : Writes 0 markEquity := by
  unfold markEquity
  refine writes_get.before fun b => (writes_checked _).before fun equity => ?_
  refine (writes_modify fun _ => by rfl).before fun _ => writes_get.before fun u => ?_
  refine (writes_checked _).before fun fall => (writes_modify fun _ => by rfl).before fun _ => ?_
  exact writes_pure _

theorem writes_bookBuy : Writes 1 (bookBuy asset side fill) := by
  unfold bookBuy
  refine writes_get.before fun b => (writes_lift _).before fun ledger => ?_
  refine (writes_modify fun _ => by rfl).before fun _ => writes_get.before fun u => ?_
  refine (writes_checked _).before fun cash => (writes_modify fun _ => by rfl).before fun _ => ?_
  refine writes_countAction.before fun _ => ?_
  exact (writes_record ..).followed fun _ => writes_lift _

theorem writes_bookSell : Writes 1 (bookSell asset side fill) := by
  unfold bookSell
  refine writes_get.before fun b => (writes_classify ..).before fun _ => ?_
  refine writes_get.before fun u => (writes_lift _).before fun ledger => ?_
  refine (writes_modify fun _ => by rfl).before fun _ => writes_get.before fun v => ?_
  refine (writes_checked _).before fun cash => (writes_modify fun _ => by rfl).before fun _ => ?_
  refine writes_countExecuted.before fun _ => writes_countAction.before fun _ => ?_
  exact (writes_record ..).followed fun _ => writes_markEquity.discard

theorem writes_buy : Writes 1 (buy asset side quote dollars available) := by
  unfold buy
  refine (writes_lift _).before fun _ => (writes_lift _).before fun _ => (writes_setPrice ..).before fun _ => ?_
  refine writes_get.before fun b => (writes_checked _).before fun filled => ?_
  cases filled with
  | none => exact writes_pure _
  | some fill =>
    dsimp only
    exact writes_bookBuy.followed fun _ => writes_pure _

theorem writes_sell : Writes 1 (sell asset side quote limit) := by
  unfold sell
  refine (writes_setPrice ..).before fun _ => writes_get.before fun b => ?_
  refine (writes_checked _).before fun filled => ?_
  cases filled with
  | none => exact writes_pure _
  | some fill =>
    dsimp only
    exact writes_bookSell.followed fun _ => writes_pure _

theorem writes_sellAll : Writes 1 (sellAll asset side quote available) := by
  unfold sellAll
  exact writes_get.before fun b => (writes_checked _).before fun limit => writes_sell

theorem writes_liquidate : Writes 2 (liquidate asset quote) := by
  unfold liquidate
  exact writes_sell.bind fun yes => writes_sell.bind fun no => writes_checked _

theorem writes_resolveSide : Writes 1 (resolveSide asset outcome side) := by
  unfold resolveSide
  refine writes_get.before fun b => ?_
  by_cases h0 : (b.position asset side).shares ≤ .zero
  · rw [if_pos h0]
    exact writes_pure _
  · rw [if_neg h0]
    refine (writes_checked _).before fun price => writes_get.before fun u => ?_
    refine (writes_checked _).before fun paid => ?_
    refine writes_get.before fun v => (writes_checked _).before fun cash => ?_
    refine (writes_modify fun _ => by rfl).before fun _ => (writes_classify ..).before fun _ => ?_
    refine (writes_modify fun _ => by rfl).before fun _ => ?_
    exact (writes_record ..).followed fun _ => writes_pure _

theorem writes_resolve : Writes 2 (resolve asset outcome) := by
  unfold resolve
  refine (writes_setPrice ..).before fun _ => writes_resolveSide.bind (n := 1) fun yes => ?_
  refine (writes_checked _).before fun _ => writes_resolveSide.followed fun no => ?_
  refine (writes_checked _).before fun total => ?_
  split
  · refine writes_countExecuted.before fun _ => ?_
    exact writes_markEquity.discard.before fun _ => writes_pure _
  · exact writes_pure _

theorem writes_reject : Writes 1 (reject asset kind price) := by
  unfold reject
  exact (writes_lift _).before fun _ => writes_record ..

/-- An operation writes at most two records, one for each side. -/
theorem writes_run (op : Operation) : Writes 2 op.run := by
  cases op with
  | buy => exact (writes_buy.map _).mono (by omega)
  | sellAll => exact (writes_sellAll.map _).mono (by omega)
  | liquidate => exact writes_liquidate.map _
  | resolve => exact writes_resolve.map _
  | reject asset kind price =>
    have hr : Writes 1 (reject asset kind price >>= fun _ => pure (none : Option Decimal)) :=
      writes_reject.followed fun _ => writes_pure none
    exact hr.mono (by omega)
  | setClock now => exact (writes_setClock now).before fun _ => writes_pure none
  | setPrice asset price => exact (writes_setPrice asset price).before fun _ => writes_pure none
  | markEquity => exact (writes_markEquity.map _).mono (by omega)

end Broker

namespace Order

open Broker

theorem writes_fill (o : Order) (quote size : Decimal) :
    Writes 1 (o.intent.fill o.asset quote o.dollars size) := by
  unfold OrderIntent.fill
  split
  · exact writes_buy
  · exact writes_sellAll

theorem writes_trade (o : Order) (book : Book) : Writes 1 (o.trade book) := by
  unfold trade
  refine (o.writes_fill _ _).followed fun filled => ?_
  split
  · exact (writes_lift _).before fun _ => writes_pure _
  · exact writes_pure _

/-- A delayed order writes at most one record: that of its fill or that of its rejection. -/
theorem writes_fillAfterDelay (o : Order) (locked : Bool) (book : Book) :
    Writes 1 (o.fillAfterDelay locked book) := by
  unfold fillAfterDelay
  split
  · exact writes_pure _
  · dsimp only
    split
    · exact writes_reject.followed fun _ => writes_pure _
    · refine (writes_checked _).before fun observed => ?_
      split
      · exact writes_reject.followed fun _ => writes_pure _
      · refine (o.writes_trade book).followed fun traded => ?_
        split
        · exact writes_pure _
        · exact writes_get.before fun b => writes_pure _

end Order
end OutcomeMarket

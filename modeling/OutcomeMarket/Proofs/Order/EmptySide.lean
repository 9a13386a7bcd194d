import OutcomeMarket.Proofs.Account.Closing
import OutcomeMarket.Proofs.Book.Soundness
import OutcomeMarket.Proofs.Order.Atomicity

/-! Orders that find nobody on the other side. The price of an empty side is no price of the market. A delayed order
refuses it before it comes to the account, and the account is valued as before. An order without latency fills nothing
either, but leaves that price behind as the last one known: of the account it changes this and no more. -/
namespace OutcomeMarket

namespace Broker

/-- What the next mark answers, with the peak and the drawdown that it leaves. -/
def nextMark (b : Broker) : Except Fault (Decimal × Decimal × Decimal) :=
  match markEquity b with
  | .ok equity u => .ok (equity, u.peakEquity, u.maxDrawdown)
  | .error f _ => .error f

/-- Accounts of the same worth, now and at the next mark. -/
structure SameWorth (b b' : Broker) : Prop where
  value_eq : b'.value = b.value
  nextMark_eq : b'.nextMark = b.nextMark

/-- Accounts whose holdings are valued at the same prices. -/
structure SameValuation (b b' : Broker) : Prop extends SameWorth b b' where
  price_eq : ∀ asset, b'.lastKnownPrice asset = b.lastKnownPrice asset

variable {b b' : Broker} {asset : String} {side : OutcomeSide} {quote price dollars : Decimal}

theorem nextMark_congr (hv : b'.value = b.value) (hp : b'.peakEquity = b.peakEquity)
    (hd : b'.maxDrawdown = b.maxDrawdown) : b'.nextMark = b.nextMark := by
  unfold nextMark markEquity
  rw [run_get_bind, run_get_bind, hv]
  cases b.value with
  | error c => rfl
  | ok equity =>
    rw [run_checked_bind_of_ok rfl, run_checked_bind_of_ok rfl, run_modify_bind, run_modify_bind, run_get_bind,
      run_get_bind, hp]
    dsimp only
    cases drawdown (if b.peakEquity < equity then equity else b.peakEquity) equity with
    | error c => rfl
    | ok fall =>
      rw [run_checked_bind_of_ok rfl, run_checked_bind_of_ok rfl, run_modify_bind, run_modify_bind, hd]
      rfl

theorem SameWorth.of_value (hv : b'.value = b.value) (hp : b'.peakEquity = b.peakEquity)
    (hd : b'.maxDrawdown = b.maxDrawdown) : b.SameWorth b' := ⟨hv, nextMark_congr hv hp hd⟩

theorem SameValuation.refl (b : Broker) : b.SameValuation b := ⟨⟨rfl, rfl⟩, fun _ => rfl⟩

/-- A record is not valued. -/
theorem sameValuation_withRecord (b : Broker) (asset : String) (kind : TradeKind) (price shares value fee : Decimal) :
    b.SameValuation (b.withRecord asset kind price shares value fee) := ⟨.of_value rfl rfl rfl, fun _ => rfl⟩

theorem lastKnownPrice_withPrice (b : Broker) (asset other : String) (price : Decimal) :
    (b.withPrice asset price).lastKnownPrice other = if other = asset then some price else b.lastKnownPrice other :=
  TextMap.find?_insert ..

theorem foldlM_congr {α : Type} {es : List α} {f g : Decimal → α → Decimal.Checked Decimal} (v : Decimal)
    (h : ∀ e ∈ es, ∀ w, f w e = g w e) : es.foldlM f v = es.foldlM g v := by
  induction es generalizing v with
  | nil => rfl
  | cons e es ih =>
    obtain ⟨hhead, htail⟩ := List.forall_mem_cons.1 h
    rw [List.foldlM_cons, List.foldlM_cons, hhead v]
    exact bind_congr fun w => ih w htail

/-- A price counts for the holdings of its asset alone. -/
theorem value_withPrice (h : b.lastKnownPrice asset = some price ∨ b.Flat asset) :
    (b.withPrice asset price).value = b.value := by
  refine foldlM_congr b.cash fun e he v => ?_
  have hp : (b.withPrice asset price).prices.find? e.1 = if e.1 = asset then some price else b.prices.find? e.1 :=
    lastKnownPrice_withPrice b asset e.1 price
  rw [hp]
  by_cases ha : e.1 = asset
  · rw [if_pos ha]
    subst ha
    obtain hk | hf := h
    · have hk : b.prices.find? e.1 = some price := hk
      rw [hk]
    · obtain ⟨hy, hn⟩ := hf.of_mem (Visiting.mem_order.1 he)
      rw [addHolding_of_flat _ v hy hn, addHolding_of_flat _ v hy hn]
  · rw [if_neg ha]

/-- Writing a price leaves the valuation alone just where it was known already. -/
theorem sameValuation_withPrice_iff :
    b.SameValuation (b.withPrice asset price) ↔ b.lastKnownPrice asset = some price := by
  constructor
  · intro h
    rw [← h.price_eq asset, lastKnownPrice_withPrice, if_pos rfl]
  · intro h
    refine ⟨.of_value (value_withPrice (.inl h)) rfl rfl, fun other => ?_⟩
    rw [lastKnownPrice_withPrice]
    split
    · rename_i ha
      rw [ha, h]
    · rfl

/-- Nothing can be bought where nothing is shown, and the quote is noted before that is found out. -/
theorem after_buy_of_nothing (hd : .zero ≤ dollars) :
    after (buy asset side quote dollars .zero) b = b.withPrice asset quote := by
  unfold after
  rw [run_buy hd (Decimal.le_refl _)]
  cases hq : (b.withPrice asset quote).quoteBuy side quote dollars .zero with
  | error c => rfl
  | ok filled =>
    cases filled with
    | none => rfl
    | some fill =>
      obtain ⟨-, -, -, -, h0, -⟩ := quoteBuy_eq_some hq
      obtain ⟨most, hmost, hle⟩ := Order.quoteBuy_le_cap hq
      cases hmost
      exact absurd h0 (Decimal.not_lt.2 hle)

theorem after_buy_of_negative (available : Decimal) (hd : ¬ .zero ≤ dollars) :
    after (buy asset side quote dollars available) b = b := by
  unfold after buy ensure
  rw [if_neg hd]
  rfl

theorem after_sellAll_of_nothing : after (sellAll asset side quote .zero) b = b.withPrice asset quote := by
  unfold after
  rw [run_sellAll rfl]
  unfold sell
  rw [run_setPrice_bind, run_get_bind]
  cases hq : (b.withPrice asset quote).quoteSell asset side quote (some .zero) with
  | error c => rfl
  | ok filled =>
    cases filled with
    | none => rfl
    | some fill =>
      obtain ⟨-, h0, hshares, -⟩ := quoteSell_worth hq
      rw [hshares] at h0
      exact absurd h0 (Decimal.not_lt.2 (Decimal.min_le_right _ _))

end Broker

namespace Order

open Broker

variable {o : Order} {book : Book} {b : Broker} {locked : Bool}

/-- Whether an order is turned away before its account is touched: by the lock of the book, or for asking to spend less
than nothing. -/
def TurnedAway (o : Order) (locked : Bool) : Prop := locked = true ∨ o.intent.isBuy = true ∧ o.dollars < .zero

/-- Against an empty side an order without latency writes the price of the empty side, and nothing else. -/
theorem after_fillNow_of_empty (locked : Bool) (b : Broker) (h : book.levels o.intent.touchSide = []) :
    (o.TurnedAway locked → after (o.fillNow locked book) b = b) ∧
      (¬ o.TurnedAway locked →
        after (o.fillNow locked book) b = b.withPrice o.asset o.intent.touchSide.emptyPrice) := by
  cases locked with
  | true => exact ⟨fun _ => rfl, fun hn => absurd (.inl rfl) hn⟩
  | false =>
    obtain ⟨hp, hs⟩ := Book.best_of_empty h
    rw [after_fillNow, after_trade, hp, hs]
    unfold OrderIntent.fill TurnedAway
    by_cases hbuy : o.intent.isBuy = true
    · rw [if_pos hbuy]
      constructor
      · rintro (hl | ⟨-, hd⟩)
        · cases hl
        · exact after_buy_of_negative _ (Decimal.not_le.2 hd)
      · intro hn
        exact after_buy_of_nothing (Decimal.not_lt.1 fun hd => hn (.inr ⟨hbuy, hd⟩))
    · rw [if_neg hbuy]
      refine ⟨?_, fun _ => after_sellAll_of_nothing⟩
      rintro (hl | ⟨hb, -⟩)
      · cases hl
      · exact absurd hb hbuy

/-- A delayed order finds the price of an empty side out of band, and leaves a record at most. -/
theorem sameValuation_after_fillAfterDelay (h : book.levels o.intent.touchSide = []) :
    b.SameValuation (after (o.fillAfterDelay locked book) b) := by
  cases locked with
  | true => exact .refl b
  | false =>
    have hp : ¬ o.Passes book := by
      intro hp
      have ht := hp.tradable
      rw [(Book.best_of_empty h).1] at ht
      exact not_tradable_emptyPrice _ ht
    obtain ⟨price, cause, -, hf⟩ := fillAfterDelay_of_not_passes (b := b) hp
    rw [after_of_ok hf]
    exact sameValuation_withRecord ..

end Order

namespace Session

open Broker

/-- An order with a latency that meets an empty side leaves every price, the worth of the account and the next mark as
they were, when it is submitted and when it is decided. One without, unless it is turned away, writes the price of the
empty side over the last one of its asset and does no more than this; so it leaves the valuation alone only if that
price stood there before, and the worth of the account also if nothing is held. -/
theorem valuation_of_empty_side (s : Session) :
    (∀ held (n : ℕ) d, (s.venueBook d.venue).levels d.order.intent.touchSide = [] →
      s.broker.SameValuation (s.fire held n d).broker) ∧
    ∀ o v locked,
      (s.latency ≠ 0 → s.broker.SameValuation (after (submit o v locked) s).broker) ∧
      (s.latency = 0 → (s.venueBook v).levels o.intent.touchSide = [] →
        let b := (after (submit o v locked) s).broker
        (o.TurnedAway locked → b = s.broker) ∧
        (¬ o.TurnedAway locked → b = s.broker.withPrice o.asset o.intent.touchSide.emptyPrice) ∧
        (s.broker.SameValuation b ↔
          o.TurnedAway locked ∨ s.broker.lastKnownPrice o.asset = some o.intent.touchSide.emptyPrice) ∧
        (s.broker.Flat o.asset → s.broker.SameWorth b)) := by
  refine ⟨fun held n d h => ?_, fun o v locked => ⟨fun hl => ?_, fun hl h => ?_⟩⟩
  · rw [broker_fire]
    exact Order.sameValuation_after_fillAfterDelay h
  · rw [broker_submit_of_delayed hl]
    exact .refl _
  · dsimp only
    rw [broker_submit_of_prompt hl]
    obtain ⟨haway, hnot⟩ := Order.after_fillNow_of_empty locked s.broker h
    refine ⟨haway, hnot, ?_⟩
    by_cases ht : o.TurnedAway locked
    · rw [haway ht]
      exact ⟨iff_of_true (.refl _) (.inl ht), fun _ => (SameValuation.refl _).toSameWorth⟩
    · rw [hnot ht, sameValuation_withPrice_iff, or_iff_right ht]
      exact ⟨Iff.rfl, fun hf => .of_value (value_withPrice (.inr hf)) rfl rfl⟩

/-- A session with two hundred and fifty shares of rain, bought at forty cents, and nobody left who sells. -/
def soldOut (latency : ℕ) : Session :=
  let start : Broker := .new { BrokerConfig.standard with spreadPenalty := .zero } .oldestFirst
  let account := after (buy "rain" .yes (.lit 4 1) (.lit 100 0) (.lit 1000 0)) start
  (new account latency).setBook "rain" ⟨"rain", [⟨.lit 3 1, .lit 1000 0⟩], []⟩

/-- An order to buy more of it, waiting. -/
def lateBuy : DelayedOrder := ⟨⟨"rain", .buyYes, .lit 5 1, .lit 10 0⟩, .live "rain", 50, .pending, false⟩

/-- The same order for an asset that is not held. -/
def snowBuy : Order := { lateBuy.order with asset := "snow" }

theorem valuation_of_soldOut :
    let waiting := after (submit lateBuy.order lateBuy.venue false) (soldOut 50)
    let noted := (after (submit lateBuy.order lateBuy.venue false) (soldOut 0)).broker
    (soldOut 50).latency ≠ 0 ∧ (soldOut 50).broker.SameValuation waiting.broker ∧
      (waiting.venueBook lateBuy.venue).levels .ask = [] ∧
      waiting.broker.SameValuation (waiting.fire none 0 lateBuy).broker ∧
      (soldOut 0).latency = 0 ∧ ((soldOut 0).venueBook lateBuy.venue).levels .ask = [] ∧
      lateBuy.order.TurnedAway true ∧
      (after (submit lateBuy.order lateBuy.venue true) (soldOut 0)).broker = (soldOut 0).broker ∧
      ¬ lateBuy.order.TurnedAway false ∧ noted = (soldOut 0).broker.withPrice "rain" .one ∧
      ((soldOut 0).broker.SameValuation noted ↔
        lateBuy.order.TurnedAway false ∨ (soldOut 0).broker.lastKnownPrice "rain" = some .one) ∧
      (soldOut 0).broker.Flat "snow" ∧
      (soldOut 0).broker.SameWorth (after (submit snowBuy (.live "snow") false) (soldOut 0)).broker := by
  intro waiting noted
  have hempty : (waiting.venueBook lateBuy.venue).levels .ask = [] := by decide +kernel
  have haway : ¬ lateBuy.order.TurnedAway false := by
    rintro (h | ⟨-, h⟩)
    · cases h
    · exact absurd h (by decide)
  have hflat : (soldOut 0).broker.Flat "snow" := fun side => by cases side <;> decide +kernel
  obtain ⟨hlocked, -⟩ := (((valuation_of_empty_side (soldOut 0)).2 lateBuy.order lateBuy.venue true).2 rfl rfl)
  obtain ⟨-, hnoted, hsame, -⟩ := ((valuation_of_empty_side (soldOut 0)).2 lateBuy.order lateBuy.venue false).2 rfl rfl
  obtain ⟨-, -, -, hworth⟩ := ((valuation_of_empty_side (soldOut 0)).2 snowBuy (.live "snow") false).2 rfl rfl
  exact ⟨by decide, ((valuation_of_empty_side (soldOut 50)).2 _ _ _).1 (by decide), hempty,
    (valuation_of_empty_side waiting).1 _ _ _ hempty, rfl, rfl, .inl rfl, hlocked (.inl rfl), haway, hnoted haway,
    hsame, hflat, hworth hflat⟩

/-- The account of that session is worth a thousand dollars. A buy without latency, which fills nothing for want of
sellers, makes a share worth a dollar and the account a hundred and fifty dollars richer. -/
theorem worth_risen_at_empty_side :
    let noted := (after (submit lateBuy.order lateBuy.venue false) (soldOut 0)).broker
    ((soldOut 0).book "rain").levels .ask = [] ∧
      (submit lateBuy.order lateBuy.venue false).run' (soldOut 0) = some (.immediate .zero) ∧
      (soldOut 0).broker.lastKnownPrice "rain" = some (.lit 4 1) ∧ noted.lastKnownPrice "rain" = some .one ∧
      (soldOut 0).broker.value = .ok (.lit 10000 1) ∧ noted.value = .ok (.lit 11500 1) ∧
      (soldOut 0).broker.nextMark = .ok (.lit 10000 1, .lit 1000 0, .zero) ∧
      noted.nextMark = .ok (.lit 11500 1, .lit 11500 1, .zero) := by
  decide +kernel

end Session
end OutcomeMarket

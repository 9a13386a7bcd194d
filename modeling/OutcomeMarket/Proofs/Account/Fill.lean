import OutcomeMarket.Order.Intent
import OutcomeMarket.Proofs.Account.Frame

/-! What a trade leaves. Buys and sales of either outcome are worked out before anything is booked, so that a trade
which answers no shares has noted its quote and done nothing else, and one that answers some has left one record,
moved its own cash and its own shares, and touched no other holding. -/
namespace OutcomeMarket

namespace OrderIntent

/-- The kind of record that a fill leaves. -/
def fillKind (i : OrderIntent) : TradeKind := if i.isBuy then .buyOf i.side else .sellOf i.side

/-- Cash after a fill: a buy pays its value, a sale receives it. -/
def cashAfter (i : OrderIntent) (cash value : Decimal) : Decimal.Checked Decimal :=
  if i.isBuy then cash.sub value else cash.add value

/-- Shares after a fill: a buy brings them, a sale takes them. -/
def sharesAfter (i : OrderIntent) (held filled : Decimal) : Decimal.Checked Decimal :=
  if i.isBuy then held.add filled else held.sub filled

/-- Book a fill of the order. -/
def book (i : OrderIntent) (asset : String) (fill : Broker.Fill) : BrokerM Unit :=
  if i.isBuy then Broker.bookBuy asset i.side fill else Broker.bookSell asset i.side fill

theorem book_of_isBuy {i : OrderIntent} (hi : i.isBuy = true) (asset : String) (fill : Broker.Fill) :
    i.book asset fill = Broker.bookBuy asset i.side fill := if_pos hi

theorem book_of_not_isBuy {i : OrderIntent} (hi : ¬ i.isBuy = true) (asset : String) (fill : Broker.Fill) :
    i.book asset fill = Broker.bookSell asset i.side fill := if_neg hi

end OrderIntent

namespace Broker

/-- Nothing was traded between the two accounts, and no equity marked; prices may differ. -/
structure Idle (b b' : Broker) : Prop extends b.SameBooks b' where
  tradesExecuted : b'.tradesExecuted = b.tradesExecuted
  peakEquity : b'.peakEquity = b.peakEquity
  maxDrawdown : b'.maxDrawdown = b.maxDrawdown

/-- Between the two accounts so many shares were filled, at once and free of fees. -/
structure Filled (i : OrderIntent) (asset : String) (shares : Decimal) (b b' : Broker) : Prop where
  recorded : ∃ price value, i.cashAfter b.cash value = .ok b'.cash ∧
    b'.trades = b.trades ++ [⟨asset, b.clock, i.fillKind, price, shares, value, .zero⟩]
  shares_eq : i.sharesAfter (b.position asset i.side).shares shares = .ok (b'.position asset i.side).shares

/-- A trade answers how much it filled, and fills that much or does nothing. It notes its quote and touches no other
price and no other holding. -/
structure FillsOrNothing (i : OrderIntent) (asset : String) (quote answer : Decimal) (b b' : Broker) : Prop where
  fill_or_nothing : (answer = .zero ∧ b.Idle b') ∨ (.zero < answer ∧ b.Filled i asset answer b')
  price : b'.lastKnownPrice asset = some quote
  other_price : ∀ other, other ≠ asset → b'.lastKnownPrice other = b.lastKnownPrice other
  other_position : ∀ other side, other ≠ asset ∨ side ≠ i.side →
    b'.position other side = b.position other side

variable {i : OrderIntent} {b b' : Broker} {asset other : String} {side : OutcomeSide} {fill : Fill}
  {quote dollars available n : Decimal}

theorem idle_withPrice (b : Broker) (asset : String) (price : Decimal) : b.Idle (b.withPrice asset price) :=
  ⟨sameBooks_withPrice b asset price, rfl, rfl, rfl⟩

/-- A trade notes its quote; then it books what it answers, unless that is nothing. -/
theorem booked_of_fill (h : i.fill asset quote dollars available b = .ok n b') :
    (n = .zero ∧ b' = b.withPrice asset quote) ∨ ∃ fill, n = fill.shares ∧ .zero < fill.shares ∧
      i.book asset fill (b.withPrice asset quote) = .ok () b' := by
  unfold OrderIntent.fill at h
  by_cases hi : i.isBuy = true
  · rw [if_pos hi] at h
    obtain h | ⟨fill, hn, hq, hb⟩ := filled_of_buy h
    · exact .inl h
    · obtain ⟨-, -, -, -, h0, -⟩ := quoteBuy_eq_some hq
      rw [← OrderIntent.book_of_isBuy hi] at hb
      exact .inr ⟨fill, hn, h0, hb⟩
  · rw [if_neg hi] at h
    obtain ⟨limit, -, h⟩ := sellAll_eq_ok_iff.1 h
    obtain h | ⟨fill, hn, hq, hb⟩ := filled_of_sell h
    · exact .inl h
    · obtain ⟨-, h0, -, -⟩ := quoteSell_eq_some hq
      rw [← OrderIntent.book_of_not_isBuy hi] at hb
      exact .inr ⟨fill, hn, h0, hb⟩

/-- What is booked is one record, its cash and its shares. -/
theorem filled_of_book (h : i.book asset fill b = .ok () b') : b.Filled i asset fill.shares b' := by
  by_cases hi : i.isBuy = true
  · rw [OrderIntent.book_of_isBuy hi] at h
    obtain ⟨p, cash, hp, hc, -, rfl⟩ := bookBuy_eq_ok_iff.1 h
    obtain ⟨-, shares, -, -, average, hs, -, -, -, rfl⟩ := bought_eq_ok_iff.1 hp
    refine ⟨⟨fill.price, fill.value, ?_, ?_⟩, ?_⟩
    · rw [OrderIntent.cashAfter, if_pos hi]
      exact hc
    · rw [OrderIntent.fillKind, if_pos hi]
      rfl
    · rw [OrderIntent.sharesAfter, if_pos hi, position_withPurchase]
      exact hs
  · rw [OrderIntent.book_of_not_isBuy hi] at h
    obtain ⟨rest, cash, equity, hr, -, hc, hm⟩ := bookSell_eq_ok_iff.1 h
    have hbooks := sameBooks_of_markEquity hm
    refine ⟨⟨fill.price, fill.value, ?_, ?_⟩, ?_⟩
    · rw [OrderIntent.cashAfter, if_neg hi, hbooks.cash]
      exact hc
    · rw [OrderIntent.fillKind, if_neg hi]
      exact hbooks.trades
    · rw [OrderIntent.sharesAfter, if_neg hi, hbooks.position_eq, position_withSale]
      exact hr

theorem prices_of_book (h : i.book asset fill b = .ok () b') : b'.prices = b.prices := by
  unfold OrderIntent.book at h
  split at h
  · obtain ⟨p, cash, -, -, -, rfl⟩ := bookBuy_eq_ok_iff.1 h
    rfl
  · obtain ⟨rest, cash, equity, -, -, -, hm⟩ := bookSell_eq_ok_iff.1 h
    obtain ⟨fall, -, -, rfl⟩ := markEquity_eq_ok_iff.1 hm
    rfl

theorem position_of_fill (hs : other ≠ asset ∨ side ≠ i.side)
    (h : i.fill asset quote dollars available b = .ok n b') : b'.position other side = b.position other side := by
  unfold OrderIntent.fill at h
  split at h
  · exact position_of_buy hs h
  · obtain ⟨limit, -, h⟩ := sellAll_eq_ok_iff.1 h
    exact position_of_sell hs h

theorem lastKnownPrice_of_fill (h : i.fill asset quote dollars available b = .ok n b') (other : String) :
    b'.lastKnownPrice other = if other = asset then some quote else b.lastKnownPrice other := by
  have hp : b'.prices = (b.withPrice asset quote).prices := by
    obtain ⟨-, rfl⟩ | ⟨fill, -, -, hb⟩ := booked_of_fill h
    · rfl
    · exact prices_of_book hb
  unfold lastKnownPrice
  rw [hp]
  exact TextMap.find?_insert ..

/-- Whatever the account and the order, what a trade does is its fill and its quote. -/
theorem fillsOrNothing_of_fill (h : i.fill asset quote dollars available b = .ok n b') :
    b.FillsOrNothing i asset quote n b' := by
  refine ⟨?_, ?_, fun other ho => ?_, fun other side hs => position_of_fill hs h⟩
  · obtain ⟨rfl, rfl⟩ | ⟨fill, rfl, h0, hb⟩ := booked_of_fill h
    · exact .inl ⟨rfl, idle_withPrice b asset quote⟩
    · obtain ⟨hrecorded, hshares⟩ := filled_of_book hb
      exact .inr ⟨h0, hrecorded, hshares⟩
  · rw [lastKnownPrice_of_fill h, if_pos rfl]
  · rw [lastKnownPrice_of_fill h, if_neg ho]

/-- Both outcomes are held, and the market shows fewer NO shares than there are to sell. -/
theorem fillsOrNothing_of_partialSale : ∃ (b b' : Broker) (n : Decimal), (new .standard .oldestFirst).runAll
      [.buy "rain" .yes (.lit 40 2) (.lit 100 0) (.lit 1000 0), .buy "rain" .no (.lit 45 2) (.lit 50 0) (.lit 900 0)] =
        .ok b ∧
    OrderIntent.sellNo.fill "rain" (.lit 38 2) .zero (.lit 20 0) b = .ok n b' ∧ .zero < n ∧
    b.FillsOrNothing .sellNo "rain" (.lit 38 2) n b' := by
  have hfill : ∃ b ∈ ((new .standard .oldestFirst).runAll [.buy "rain" .yes (.lit 40 2) (.lit 100 0) (.lit 1000 0),
      .buy "rain" .no (.lit 45 2) (.lit 50 0) (.lit 900 0)]).toOption,
      ∃ n ∈ (OrderIntent.sellNo.fill "rain" (.lit 38 2) .zero (.lit 20 0)).run' b, Decimal.zero < n := by
    decide +kernel
  obtain ⟨b, hb, n, hn, h0⟩ := hfill
  have hb := eq_ok_of_mem_toOption hb
  have hn := eq_ok_of_mem_run' hn
  exact ⟨b, _, n, hb, hn, h0, fillsOrNothing_of_fill hn⟩

end Broker
end OutcomeMarket

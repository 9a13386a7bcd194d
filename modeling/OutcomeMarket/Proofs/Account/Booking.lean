import OutcomeMarket.Account.Operation
import OutcomeMarket.Proofs.Computation
import OutcomeMarket.Proofs.Decimal.Bounds

/-! What the operations of an account do when they succeed, and how they fail. Each is described by the
account that it leaves: the account with a purchase, with a sale, with a settled side. -/
namespace OutcomeMarket

theorem Position.not_isFlat_of_pos {p : Position} (h : .zero < p.shares) : ¬ p.isFlat = true := fun hf =>
  (Decimal.zero_lt_iff_toRat.1 h).ne' (Decimal.isZero_iff_toRat.1 hf)

theorem Ledger.get_set (l : Ledger) (asset other : String) (side t : OutcomeSide) (p : Position) :
    (l.set asset side p).get other t = if other = asset ∧ t = side then p else l.get other t := by
  by_cases h : other = asset ∧ t = side
  · rw [if_pos h, h.1, h.2, get_set_self]
  · rw [if_neg h]
    by_cases ha : other = asset
    · exact get_set_of_ne l (.inr fun ht => h ⟨ha, ht⟩) p
    · exact get_set_of_ne l (.inl ha) p

theorem Visiting.mem_order {visiting : Visiting} {es : List (String × PositionPair)} {e : String × PositionPair} :
    e ∈ visiting.order es ↔ e ∈ es := (visiting.perm es).mem_iff

namespace Broker

theorem position_new (config : BrokerConfig) (visiting : Visiting) (asset : String) (side : OutcomeSide) :
    (new config visiting).position asset side = .flat := by cases side <;> rfl

/-- An exit counted as a win or a loss. -/
def withExit (b : Broker) (exit entry : Decimal) : Broker :=
  { b with
    wins := if entry < exit then b.wins + 1 else b.wins
    losses := if entry < exit then b.losses else b.losses + 1 }

def withRecord (b : Broker) (asset : String) (kind : TradeKind) (price shares value fee : Decimal) : Broker :=
  { b with trades := b.trades ++ [⟨asset, b.clock, kind, price, shares, value, fee⟩] }

def withPosition (b : Broker) (asset : String) (side : OutcomeSide) (p : Position) (cash : Decimal) : Broker :=
  { b with ledger := b.ledger.set asset side p, cash := cash }

/-- The account after a purchase that leaves the position `p` and so much cash. -/
def withPurchase (b : Broker) (asset : String) (side : OutcomeSide) (fill : Fill) (p : Position)
    (cash : Decimal) : Broker :=
  { (b.withPosition asset side p cash).withRecord
      asset (.buyOf side) fill.price fill.shares fill.value .zero with
    actions := b.actions + 1 }

/-- The account after a sale that leaves so many shares and so much cash. -/
def withSale (b : Broker) (asset : String) (side : OutcomeSide) (fill : Fill) (rest cash : Decimal) : Broker :=
  let held := b.position asset side
  { ((b.withExit fill.price held.averagePrice).withPosition asset side (held.withShares rest) cash).withRecord
      asset (.sellOf side) fill.price fill.shares fill.value .zero with
    tradesExecuted := b.tradesExecuted + 1
    actions := b.actions + 1 }

/-- The account after a side was settled at its price. -/
def withSettlement (b : Broker) (asset : String) (side : OutcomeSide) (price net fee cash : Decimal) : Broker :=
  let held := b.position asset side
  ((b.withExit price held.averagePrice).withPosition asset side .flat cash).withRecord
    asset (.resolveOf side) price held.shares net fee

/-- The account with a price noted. -/
def withPrice (b : Broker) (asset : String) (price : Decimal) : Broker :=
  { b with prices := b.prices.insert asset price }

/-- The account with other extremes of its equity. -/
def withExtremes (b : Broker) (peak fall : Decimal) : Broker :=
  { b with peakEquity := peak, maxDrawdown := fall }

variable {b b' : Broker} {asset : String} {side : OutcomeSide} {fill : Fill}
  {quote dollars available price outcome n : Decimal} {limit : Option Decimal} {f : Fault}

/-- A holding that is written is the only one that changes. -/
theorem position_of_set {p : Position} (h : b'.ledger = b.ledger.set asset side p) (other : String)
    (t : OutcomeSide) :
    b'.position other t = if other = asset ∧ t = side then p else b.position other t := by
  rw [position, h, Ledger.get_set]
  rfl

theorem position_withPurchase (b : Broker) (asset : String) (side : OutcomeSide) (fill : Fill) (p : Position)
    (cash : Decimal) : (b.withPurchase asset side fill p cash).position asset side = p :=
  Ledger.get_set_self b.ledger asset side p

theorem position_withSale (b : Broker) (asset : String) (side : OutcomeSide) (fill : Fill) (rest cash : Decimal) :
    (b.withSale asset side fill rest cash).position asset side = (b.position asset side).withShares rest :=
  Ledger.get_set_self b.ledger asset side _

theorem position_withSettlement (b : Broker) (asset : String) (side : OutcomeSide) (price net fee cash : Decimal) :
    (b.withSettlement asset side price net fee cash).position asset side = .flat :=
  Ledger.get_set_self b.ledger asset side .flat

theorem wins_withExit (b : Broker) (exit entry : Decimal) :
    (b.withExit exit entry).wins = b.wins + if entry < exit then 1 else 0 := by
  unfold withExit
  dsimp only
  split <;> rfl

theorem losses_withExit (b : Broker) (exit entry : Decimal) :
    (b.withExit exit entry).losses = b.losses + if entry < exit then 0 else 1 := by
  unfold withExit
  dsimp only
  split <;> rfl

theorem run_classify_bind {α : Type} (exit entry : Decimal) (k : Unit → BrokerM α) :
    (classify exit entry >>= k) b = k () (b.withExit exit entry) := by
  unfold classify
  rw [run_modify_bind]
  congr 1
  unfold withExit
  split <;> rfl

theorem markEquity_eq_ok_iff : markEquity b = .ok n b' ↔
    ∃ fall, b.value = .ok n ∧
      drawdown (if b.peakEquity < n then n else b.peakEquity) n = .ok fall ∧
      b' = b.withExtremes (if b.peakEquity < n then n else b.peakEquity)
        (if b.maxDrawdown < fall then fall else b.maxDrawdown) := by
  simp only [markEquity, run_get_bind, run_checked_bind_eq_ok_iff, run_modify_bind, run_pure_eq_ok_iff]
  constructor
  · rintro ⟨equity, hv, fall, hf, rfl, rfl⟩
    exact ⟨fall, hv, hf, rfl⟩
  · rintro ⟨fall, hv, hf, rfl⟩
    exact ⟨n, hv, fall, hf, rfl, rfl⟩

theorem markEquity_eq_error (h : markEquity b = .error f b') : ∃ c, f = .arithmetic c := by
  simp only [markEquity, run_get_bind, run_checked_bind_eq_error_iff, run_modify_bind, run_pure_ne_error,
    and_false, exists_false, or_false] at h
  obtain ⟨⟨c, _, hf⟩, _⟩ | ⟨_, _, ⟨c, _, hf⟩, _⟩ := h
  · exact ⟨c, hf⟩
  · exact ⟨c, hf⟩

theorem bought_eq_ok_iff {p q : Position} {filled spent : Decimal} : p.bought filled spent = .ok q ↔
    .zero < filled ∧ ∃ shares basis cost average, p.shares.add filled = .ok shares ∧
      p.shares.mul p.averagePrice = .ok basis ∧ basis.add spent = .ok cost ∧ cost.div shares = .ok average ∧
      q = ⟨shares, average⟩ := by
  simp only [Position.bought, Position.costBasis, OutcomeMarket.bind_eq_ok_iff, ensure_eq_ok_iff,
    checked_eq_ok_iff, pure_eq_ok_iff]
  constructor
  · rintro ⟨_, hf, shares, hs, basis, hb, cost, hc, average, ha, rfl⟩
    exact ⟨hf, shares, basis, cost, average, hs, hb, hc, ha, rfl⟩
  · rintro ⟨hf, shares, basis, cost, average, hs, hb, hc, ha, rfl⟩
    exact ⟨(), hf, shares, hs, basis, hb, cost, hc, average, ha, rfl⟩

/-- Something was bought, so there are shares. -/
theorem shares_pos_of_bought {p q : Position} {filled spent : Decimal} (h0 : .zero ≤ p.shares)
    (h : p.bought filled spent = .ok q) : .zero < q.shares := by
  obtain ⟨hf, shares, basis, cost, average, hs, -, -, -, rfl⟩ := bought_eq_ok_iff.1 h
  have hle := Decimal.le_add_left h0 hs
  rw [Decimal.lt_iff_toRat] at *
  exact hf.trans_le (Decimal.le_iff_toRat.1 hle)

theorem applyBuy_eq_ok_iff {l l' : Ledger} {filled spent : Decimal} :
    l.applyBuy asset side filled spent = .ok l' ↔
      ∃ p, (l.get asset side).bought filled spent = .ok p ∧ l.set asset side p = l' := by
  simp only [Ledger.applyBuy, OutcomeMarket.bind_eq_ok_iff, pure_eq_ok_iff]

theorem applySell_eq_ok_iff {l l' : Ledger} {filled : Decimal} :
    l.applySell asset side filled = .ok l' ↔
      ∃ rest, (l.get asset side).shares.sub filled = .ok rest ∧ .zero ≤ rest ∧
        l.set asset side ((l.get asset side).withShares rest) = l' := by
  simp only [Ledger.applySell, OutcomeMarket.bind_eq_ok_iff, pure_eq_ok_iff, checked_eq_ok_iff,
    ensure_eq_ok_iff, exists_const]

theorem bookBuy_eq_ok_iff {u : Unit} : bookBuy asset side fill b = .ok u b' ↔
    ∃ p cash, (b.position asset side).bought fill.shares fill.value = .ok p ∧
      b.cash.sub fill.value = .ok cash ∧ .zero ≤ cash ∧ b' = b.withPurchase asset side fill p cash := by
  simp only [bookBuy, countAction, record, run_get_bind, run_lift_bind_eq_ok_iff, run_modify_bind,
    run_checked_bind_eq_ok_iff, run_lift_eq_ok_iff, applyBuy_eq_ok_iff, ensure_eq_ok_iff]
  constructor
  · rintro ⟨_, ⟨p, hp, rfl⟩, cash, hc, h0, rfl⟩
    exact ⟨p, cash, hp, hc, h0, rfl⟩
  · rintro ⟨p, cash, hp, hc, h0, rfl⟩
    exact ⟨_, ⟨p, hp, rfl⟩, cash, hc, h0, rfl⟩

theorem run_discard_eq_ok_iff {α : Type} {x : BrokerM α} {u : Unit} :
    discard x b = .ok u b' ↔ ∃ a, x b = .ok a b' := by
  change (Function.const α () <$> x) b = .ok u b' ↔ _
  simp only [run_map_eq_ok_iff]
  simp

theorem bookSell_eq_ok_iff {u : Unit} : bookSell asset side fill b = .ok u b' ↔
    ∃ rest cash equity, (b.position asset side).shares.sub fill.shares = .ok rest ∧ .zero ≤ rest ∧
      b.cash.add fill.value = .ok cash ∧
      markEquity (b.withSale asset side fill rest cash) = .ok equity b' := by
  simp only [bookSell, countAction, countExecuted, record, run_get_bind, run_classify_bind,
    run_lift_bind_eq_ok_iff, run_modify_bind, run_checked_bind_eq_ok_iff, applySell_eq_ok_iff,
    run_discard_eq_ok_iff]
  constructor
  · rintro ⟨_, ⟨rest, hr, h0, rfl⟩, cash, hc, equity, hm⟩
    exact ⟨rest, cash, equity, hr, h0, hc, hm⟩
  · rintro ⟨rest, cash, equity, hr, h0, hc, hm⟩
    exact ⟨_, ⟨rest, hr, h0, rfl⟩, cash, hc, equity, hm⟩

/-- A sale of shares that are there, for cash that fits, leaves only the equity to be marked. -/
theorem run_bookSell {rest cash : Decimal} (hr : (b.position asset side).shares.sub fill.shares = .ok rest)
    (h0 : .zero ≤ rest) (hc : b.cash.add fill.value = .ok cash) :
    bookSell asset side fill b = discard markEquity (b.withSale asset side fill rest cash) := by
  have hl : (b.withExit fill.price (b.position asset side).averagePrice).ledger.applySell asset side fill.shares =
      .ok (b.ledger.set asset side ((b.position asset side).withShares rest)) :=
    applySell_eq_ok_iff.2 ⟨rest, hr, h0, rfl⟩
  unfold bookSell
  rw [run_get_bind, run_classify_bind, run_get_bind, run_lift_bind_of_ok hl, run_modify_bind, run_get_bind]
  exact run_checked_bind_of_ok hc

theorem applyBuy_eq_error {l : Ledger} {filled spent : Decimal} (h0 : .zero < filled)
    (h : l.applyBuy asset side filled spent = .error f) : ∃ c, f = .arithmetic c := by
  simp only [Ledger.applyBuy, Position.bought, bind_eq_error_iff, pure_ne_error, checked_eq_error_iff,
    ensure_eq_error_iff, and_false, exists_false, or_false] at h
  obtain ⟨hn, _⟩ | ⟨_, _, ⟨c, _, hf⟩ | ⟨_, _, ⟨c, _, hf⟩ | ⟨_, _, ⟨c, _, hf⟩ | ⟨_, _, c, _, hf⟩⟩⟩⟩ := h
  · exact absurd h0 hn
  all_goals exact ⟨c, hf⟩

/-- A buy of shares that costs no more than the cash can only fault on a number out of range. -/
theorem bookBuy_eq_error (h0 : .zero < fill.shares) (hv : fill.value ≤ b.cash)
    (h : bookBuy asset side fill b = .error f b') : ∃ c, f = .arithmetic c := by
  simp only [bookBuy, countAction, record, run_get_bind, run_lift_bind_eq_error_iff, run_modify_bind,
    run_checked_bind_eq_error_iff, run_lift_eq_error_iff, ensure_eq_error_iff] at h
  obtain ⟨hl, _⟩ | ⟨_, _, ⟨⟨c, _, hf⟩, _⟩ | ⟨cash, hc, ⟨hn, _⟩, _⟩⟩ := h
  · exact applyBuy_eq_error h0 hl
  · exact ⟨c, hf⟩
  · exact absurd (Decimal.zero_le_sub hv hc) hn

theorem applySell_eq_error {l : Ledger} {filled : Decimal} (h0 : filled ≤ (l.get asset side).shares)
    (h : l.applySell asset side filled = .error f) : ∃ c, f = .arithmetic c := by
  simp only [Ledger.applySell, bind_eq_error_iff, pure_ne_error, checked_eq_error_iff, checked_eq_ok_iff,
    ensure_eq_error_iff, and_false, exists_false, or_false] at h
  obtain ⟨c, _, hf⟩ | ⟨rest, hr, hn, _⟩ := h
  · exact ⟨c, hf⟩
  · exact absurd (Decimal.zero_le_sub h0 hr) hn

theorem run_discard_eq_error_iff {α : Type} {x : BrokerM α} :
    discard x b = .error f b' ↔ x b = .error f b' := by
  change (Function.const α () <$> x) b = .error f b' ↔ _
  rw [run_map_eq_error_iff]

/-- A sale of no more than the position can only fault on a number out of range. -/
theorem bookSell_eq_error (h0 : fill.shares ≤ (b.position asset side).shares)
    (h : bookSell asset side fill b = .error f b') : ∃ c, f = .arithmetic c := by
  simp only [bookSell, countAction, countExecuted, record, run_get_bind, run_classify_bind,
    run_lift_bind_eq_error_iff, run_modify_bind, run_checked_bind_eq_error_iff, run_discard_eq_error_iff] at h
  obtain ⟨hl, _⟩ | ⟨_, _, ⟨⟨c, _, hf⟩, _⟩ | ⟨_, _, hm⟩⟩ := h
  · exact applySell_eq_error h0 hl
  · exact ⟨c, hf⟩
  · exact markEquity_eq_error hm

theorem ite_pure_none_eq_some {p : Prop} [Decidable p] {x : Decimal.Checked (Option Fill)}
    (h : (if p then pure none else x) = .ok (some fill)) : ¬p ∧ x = .ok (some fill) := by
  by_cases hp : p
  · rw [if_pos hp] at h
    simp [pure, Except.pure] at h
  · rw [if_neg hp] at h
    exact ⟨hp, h⟩

theorem ite_pure_none_eq_error_iff {p : Prop} [Decidable p] {x : Decimal.Checked (Option Fill)}
    {f : Decimal.ArithmeticFault} : (if p then pure none else x) = .error f ↔ ¬ p ∧ x = .error f := by
  by_cases hp : p
  · rw [if_pos hp]
    exact iff_of_false pure_ne_error fun h => h.1 hp
  · rw [if_neg hp]
    exact ⟨fun h => ⟨hp, h⟩, fun h => h.2⟩

/-- What a buy is worked out to: the wanted shares, no more than the cap; or, where the cash does not pay for
them, as many as it pays for. -/
theorem quoteBuy_worth (h : b.quoteBuy side quote dollars available = .ok (some fill)) :
    minOrderDollars < dollars ∧ dollars ≤ b.cash ∧ b.buyPrice side quote = .ok fill.price ∧
      .zero < fill.price ∧ .zero < fill.shares ∧ ∃ most wanted cost worth,
        b.cap available = .ok most ∧ wanted ≤ most ∧ wanted.mul fill.price = .ok cost ∧
        fill.shares.mul fill.price = .ok worth ∧ fill.value = worth.min b.cash ∧
        ((cost ≤ b.cash ∧ fill.shares = wanted) ∨ (b.cash < cost ∧ b.cash.div fill.price = .ok fill.shares)) := by
  unfold quoteBuy at h
  obtain ⟨hd, h⟩ := ite_pure_none_eq_some h
  simp only [not_or, Decimal.not_le, Decimal.not_lt] at hd
  obtain ⟨price, hp, h⟩ := OutcomeMarket.bind_eq_ok_iff.1 h
  obtain ⟨h0, h⟩ := ite_pure_none_eq_some h
  simp only [OutcomeMarket.bind_eq_ok_iff] at h
  obtain ⟨desired, _, most, hmost, cost, hcost, h⟩ := h
  have hj : ∃ shares : Decimal, (if shares ≤ .zero then pure none else do
      let value ← shares.mul price
      return some ⟨price, shares, value.min b.cash⟩ : Decimal.Checked (Option Fill)) = .ok (some fill) ∧
      ((cost ≤ b.cash ∧ shares = desired.min most) ∨ (b.cash < cost ∧ b.cash.div price = .ok shares)) := by
    by_cases hc : b.cash < cost
    · rw [if_pos hc] at h
      obtain ⟨shares, hs, h⟩ := OutcomeMarket.bind_eq_ok_iff.1 h
      exact ⟨shares, h, .inr ⟨hc, hs⟩⟩
    · rw [if_neg hc] at h
      exact ⟨_, h, .inl ⟨Decimal.not_lt.1 hc, rfl⟩⟩
  obtain ⟨shares, h, hcut⟩ := hj
  obtain ⟨hs, h⟩ := ite_pure_none_eq_some h
  simp only [OutcomeMarket.bind_eq_ok_iff, pure_eq_ok_iff, Option.some.injEq] at h
  obtain ⟨worth, hw, rfl⟩ := h
  exact ⟨hd.1, hd.2, hp, Decimal.not_le.1 h0, Decimal.not_le.1 hs, most, desired.min most, cost, worth, hmost,
    Decimal.min_le_right _ _, hcost, hw, rfl, hcut⟩

/-- What a buy is worked out to: shares at a positive price, for their worth or all the cash. -/
theorem quoteBuy_eq_some (h : b.quoteBuy side quote dollars available = .ok (some fill)) :
    minOrderDollars < dollars ∧ dollars ≤ b.cash ∧ b.buyPrice side quote = .ok fill.price ∧
      .zero < fill.price ∧ .zero < fill.shares ∧
      ∃ worth, fill.shares.mul fill.price = .ok worth ∧ fill.value = worth.min b.cash := by
  obtain ⟨hd, hc, hp, h0, hs, _, _, _, worth, _, _, _, hw, hv, _⟩ := quoteBuy_worth h
  exact ⟨hd, hc, hp, h0, hs, worth, hw, hv⟩

/-- What a sale is worked out to: the position, or as much of it as the limit allows, for its worth. -/
theorem quoteSell_worth (h : b.quoteSell asset side quote limit = .ok (some fill)) :
    b.sellPrice side quote = .ok fill.price ∧ .zero < fill.shares ∧
      fill.shares = limit.elim (b.position asset side).shares (b.position asset side).shares.min ∧
      fill.shares.mul fill.price = .ok fill.value := by
  unfold quoteSell at h
  obtain ⟨_, h⟩ := ite_pure_none_eq_some h
  obtain ⟨price, hp, h⟩ := OutcomeMarket.bind_eq_ok_iff.1 h
  obtain ⟨hs, h⟩ := ite_pure_none_eq_some h
  simp only [OutcomeMarket.bind_eq_ok_iff, pure_eq_ok_iff, Option.some.injEq] at h
  obtain ⟨worth, hw, rfl⟩ := h
  exact ⟨hp, Decimal.not_le.1 hs, by cases limit <;> rfl, hw⟩

/-- What a sale is worked out to: part of the position, for its worth. -/
theorem quoteSell_eq_some (h : b.quoteSell asset side quote limit = .ok (some fill)) :
    b.sellPrice side quote = .ok fill.price ∧ .zero < fill.shares ∧
      fill.shares ≤ (b.position asset side).shares ∧ fill.shares.mul fill.price = .ok fill.value := by
  obtain ⟨hp, h0, hs, hv⟩ := quoteSell_worth h
  refine ⟨hp, h0, ?_, hv⟩
  rw [hs]
  cases limit with
  | none => exact Decimal.le_refl _
  | some most => exact Decimal.min_le_left _ _

theorem run_setPrice_bind {α : Type} (asset : String) (price : Decimal) (k : Unit → BrokerM α) :
    (setPrice asset price >>= k) b = k () (b.withPrice asset price) := rfl

/-- A buy notes the quote, books what it was worked out to, if anything, and answers the shares. -/
theorem buy_eq_ok_iff : buy asset side quote dollars available b = .ok n b' ↔
    .zero ≤ dollars ∧ .zero ≤ available ∧
      (((b.withPrice asset quote).quoteBuy side quote dollars available = .ok none ∧ n = .zero ∧
          b' = b.withPrice asset quote) ∨
        ∃ fill, (b.withPrice asset quote).quoteBuy side quote dollars available = .ok (some fill) ∧
          n = fill.shares ∧ bookBuy asset side fill (b.withPrice asset quote) = .ok () b') := by
  simp only [buy, run_lift_bind_eq_ok_iff, run_setPrice_bind, run_get_bind, run_checked_bind_eq_ok_iff,
    ensure_eq_ok_iff]
  constructor
  · rintro ⟨_, hd, _, ha, filled, hq, h⟩
    refine ⟨hd, ha, ?_⟩
    cases filled with
    | none =>
      obtain ⟨rfl, rfl⟩ := run_pure_eq_ok_iff.1 h
      exact .inl ⟨hq, rfl, rfl⟩
    | some fill =>
      obtain ⟨_, _, hb, h⟩ := run_bind_eq_ok_iff.1 h
      obtain ⟨rfl, rfl⟩ := run_pure_eq_ok_iff.1 h
      exact .inr ⟨fill, hq, rfl, hb⟩
  · rintro ⟨hd, ha, ⟨hq, rfl, rfl⟩ | ⟨fill, hq, rfl, hb⟩⟩
    · exact ⟨(), hd, (), ha, none, hq, rfl⟩
    · exact ⟨(), hd, (), ha, some fill, hq, run_bind_eq_ok_iff.2 ⟨(), b', hb, rfl⟩⟩

/-- A buy notes the quote and books what it is worked out to. -/
theorem run_buy (hd : .zero ≤ dollars) (ha : .zero ≤ available) : buy asset side quote dollars available b =
    (liftM ((b.withPrice asset quote).quoteBuy side quote dollars available) >>= fun filled => match filled with
      | none => pure Decimal.zero
      | some fill => (fun _ => fill.shares) <$> bookBuy asset side fill : BrokerM Decimal)
      (b.withPrice asset quote) := by
  have hd' : ensure (.zero ≤ dollars) (Fault.negativeDollars dollars) = .ok () := ensure_eq_ok_iff.2 hd
  have ha' : ensure (.zero ≤ available) (Fault.negativeAvailable available) = .ok () := ensure_eq_ok_iff.2 ha
  unfold buy
  rw [run_lift_bind_of_ok hd', run_lift_bind_of_ok ha', run_setPrice_bind, run_get_bind]
  rfl

theorem filled_of_buy (h : buy asset side quote dollars available b = .ok n b') :
    (n = .zero ∧ b' = b.withPrice asset quote) ∨ ∃ fill, n = fill.shares ∧
      (b.withPrice asset quote).quoteBuy side quote dollars available = .ok (some fill) ∧
      bookBuy asset side fill (b.withPrice asset quote) = .ok () b' := by
  obtain ⟨_, _, ⟨_, hn, hb⟩ | ⟨fill, hq, hn, hb⟩⟩ := buy_eq_ok_iff.1 h
  · exact .inl ⟨hn, hb⟩
  · exact .inr ⟨fill, hn, hq, hb⟩

theorem buy_eq_ok (h : buy asset side quote dollars available b = .ok n b') :
    b' = b.withPrice asset quote ∨ ∃ fill,
      (b.withPrice asset quote).quoteBuy side quote dollars available = .ok (some fill) ∧
      bookBuy asset side fill (b.withPrice asset quote) = .ok () b' := by
  obtain ⟨_, h⟩ | ⟨fill, _, hq, hb⟩ := filled_of_buy h
  · exact .inl h
  · exact .inr ⟨fill, hq, hb⟩

theorem buy_eq_error (hd : .zero ≤ dollars) (ha : .zero ≤ available)
    (h : buy asset side quote dollars available b = .error f b') : ∃ c, f = .arithmetic c := by
  simp only [buy, run_lift_bind_eq_error_iff, run_setPrice_bind, run_get_bind, run_checked_bind_eq_error_iff,
    ensure_eq_error_iff] at h
  obtain ⟨⟨hn, _⟩, _⟩ | ⟨_, _, ⟨⟨hn, _⟩, _⟩ | ⟨_, _, ⟨⟨c, _, hf⟩, _⟩ | ⟨filled, hq, h⟩⟩⟩ := h
  · exact absurd hd hn
  · exact absurd ha hn
  · exact ⟨c, hf⟩
  · cases filled with
    | none => exact absurd h run_pure_ne_error
    | some fill =>
      obtain ⟨_, _, _, _, h0, worth, _, hv⟩ := quoteBuy_eq_some hq
      have hle : fill.value ≤ (b.withPrice asset quote).cash := by
        rw [hv]
        exact Decimal.min_le_right _ _
      obtain h | ⟨_, _, _, h⟩ := run_bind_eq_error_iff.1 h
      · exact bookBuy_eq_error h0 hle h
      · exact absurd h run_pure_ne_error

/-- A sale notes the quote, books what it was worked out to, if anything, and answers the shares. -/
theorem sell_eq_ok_iff : sell asset side quote limit b = .ok n b' ↔
    ((b.withPrice asset quote).quoteSell asset side quote limit = .ok none ∧ n = .zero ∧
        b' = b.withPrice asset quote) ∨
      ∃ fill, (b.withPrice asset quote).quoteSell asset side quote limit = .ok (some fill) ∧
        n = fill.shares ∧ bookSell asset side fill (b.withPrice asset quote) = .ok () b' := by
  simp only [sell, run_setPrice_bind, run_get_bind, run_checked_bind_eq_ok_iff]
  constructor
  · rintro ⟨filled, hq, h⟩
    cases filled with
    | none =>
      obtain ⟨rfl, rfl⟩ := run_pure_eq_ok_iff.1 h
      exact .inl ⟨hq, rfl, rfl⟩
    | some fill =>
      obtain ⟨_, _, hb, h⟩ := run_bind_eq_ok_iff.1 h
      obtain ⟨rfl, rfl⟩ := run_pure_eq_ok_iff.1 h
      exact .inr ⟨fill, hq, rfl, hb⟩
  · rintro (⟨hq, rfl, rfl⟩ | ⟨fill, hq, rfl, hb⟩)
    · exact ⟨none, hq, rfl⟩
    · exact ⟨some fill, hq, run_bind_eq_ok_iff.2 ⟨(), b', hb, rfl⟩⟩

theorem run_sell (h : (b.withPrice asset quote).quoteSell asset side quote limit = .ok (some fill)) :
    sell asset side quote limit b =
      ((fun _ => fill.shares) <$> bookSell asset side fill) (b.withPrice asset quote) := by
  unfold sell
  rw [run_setPrice_bind, run_get_bind, run_checked_bind_of_ok h, ← bind_pure_comp]

theorem filled_of_sell (h : sell asset side quote limit b = .ok n b') :
    (n = .zero ∧ b' = b.withPrice asset quote) ∨ ∃ fill, n = fill.shares ∧
      (b.withPrice asset quote).quoteSell asset side quote limit = .ok (some fill) ∧
      bookSell asset side fill (b.withPrice asset quote) = .ok () b' := by
  obtain ⟨_, hn, hb⟩ | ⟨fill, hq, hn, hb⟩ := sell_eq_ok_iff.1 h
  · exact .inl ⟨hn, hb⟩
  · exact .inr ⟨fill, hn, hq, hb⟩

theorem sell_eq_ok (h : sell asset side quote limit b = .ok n b') :
    b' = b.withPrice asset quote ∨ ∃ fill,
      (b.withPrice asset quote).quoteSell asset side quote limit = .ok (some fill) ∧
      bookSell asset side fill (b.withPrice asset quote) = .ok () b' := by
  obtain ⟨_, h⟩ | ⟨fill, _, hq, hb⟩ := filled_of_sell h
  · exact .inl h
  · exact .inr ⟨fill, hq, hb⟩

theorem sell_eq_error (h : sell asset side quote limit b = .error f b') : ∃ c, f = .arithmetic c := by
  simp only [sell, run_setPrice_bind, run_get_bind, run_checked_bind_eq_error_iff] at h
  obtain ⟨⟨c, _, hf⟩, _⟩ | ⟨filled, hq, h⟩ := h
  · exact ⟨c, hf⟩
  · cases filled with
    | none => exact absurd h run_pure_ne_error
    | some fill =>
      obtain ⟨_, _, hle, _⟩ := quoteSell_eq_some hq
      obtain h | ⟨_, _, _, h⟩ := run_bind_eq_error_iff.1 h
      · exact bookSell_eq_error hle h
      · exact absurd h run_pure_ne_error

theorem run_sellAll {most : Decimal} (h : b.cap available = .ok most) :
    sellAll asset side quote available b = sell asset side quote (some most) b := by
  unfold sellAll
  rw [run_get_bind, run_checked_bind_of_ok h]

theorem sellAll_eq_ok_iff : sellAll asset side quote available b = .ok n b' ↔
    ∃ limit, b.cap available = .ok limit ∧ sell asset side quote (some limit) b = .ok n b' := by
  simp only [sellAll, run_get_bind, run_checked_bind_eq_ok_iff]

theorem sellAll_eq_error (h : sellAll asset side quote available b = .error f b') : ∃ c, f = .arithmetic c := by
  simp only [sellAll, run_get_bind, run_checked_bind_eq_error_iff] at h
  obtain ⟨⟨c, _, hf⟩, _⟩ | ⟨_, _, h⟩ := h
  · exact ⟨c, hf⟩
  · exact sell_eq_error h

/-- A liquidation is a sale of the one side and then of the other. -/
theorem liquidate_eq_ok (h : liquidate asset quote b = .ok n b') :
    ∃ yes u no, sell asset .yes quote none b = .ok yes u ∧ sell asset .no quote none u = .ok no b' := by
  simp only [liquidate, run_bind_eq_ok_iff, run_checked_eq_ok_iff] at h
  obtain ⟨yes, u, hy, no, _, hn, _, _, ⟨_, rfl⟩, _, rfl⟩ := h
  exact ⟨yes, u, no, hy, hn⟩

theorem liquidate_eq_error (h : liquidate asset quote b = .error f b') : ∃ c, f = .arithmetic c := by
  simp only [liquidate, run_bind_eq_error_iff, run_checked_eq_error_iff] at h
  obtain h | ⟨_, _, _, h | ⟨_, _, _, ⟨c, _, hf⟩, _⟩⟩ := h
  · exact sell_eq_error h
  · exact sell_eq_error h
  · exact ⟨c, hf⟩

/-- A side is settled if there are shares on it. -/
theorem resolveSide_eq_ok {r : Option Decimal} (h : resolveSide asset outcome side b = .ok r b') :
    ((b.position asset side).shares ≤ .zero ∧ r = none ∧ b' = b) ∨
      ∃ price net fee cash, .zero < (b.position asset side).shares ∧ side.priceFromYes outcome = .ok price ∧
        b.settlement (b.position asset side) price = .ok (net, fee) ∧ b.cash.add net = .ok cash ∧
        r = some net ∧ b' = b.withSettlement asset side price net fee cash := by
  unfold resolveSide at h
  rw [run_get_bind] at h
  by_cases h0 : (b.position asset side).shares ≤ .zero
  · rw [if_pos h0, run_pure_eq_ok_iff] at h
    exact .inl ⟨h0, h.1.symm, h.2.symm⟩
  · rw [if_neg h0] at h
    simp only [record, run_checked_bind_eq_ok_iff, run_get_bind, run_modify_bind, run_classify_bind,
      run_pure_eq_ok_iff] at h
    obtain ⟨price, hp, ⟨net, fee⟩, hs, cash, hc, rfl, rfl⟩ := h
    exact .inr ⟨price, net, fee, cash, Decimal.not_le.1 h0, hp, hs, hc, rfl, rfl⟩

/-- A side that is held, has a price and can be paid out is settled. -/
theorem run_resolveSide {net fee cash : Decimal} (h0 : .zero < (b.position asset side).shares)
    (hp : side.priceFromYes outcome = .ok price) (hs : b.settlement (b.position asset side) price = .ok (net, fee))
    (hc : b.cash.add net = .ok cash) : resolveSide asset outcome side b =
      .ok (some net) (b.withSettlement asset side price net fee cash) := by
  unfold resolveSide
  rw [run_get_bind, if_neg (Decimal.not_le.2 h0)]
  simp only [record, run_checked_bind_eq_ok_iff, run_get_bind, run_modify_bind, run_classify_bind, run_pure_eq_ok_iff]
  exact ⟨price, hp, (net, fee), hs, cash, hc, rfl, rfl⟩

theorem resolveSide_eq_error (h : resolveSide asset outcome side b = .error f b') : ∃ c, f = .arithmetic c := by
  unfold resolveSide at h
  rw [run_get_bind] at h
  by_cases h0 : (b.position asset side).shares ≤ .zero
  · rw [if_pos h0] at h
    exact absurd h run_pure_ne_error
  · rw [if_neg h0] at h
    simp only [record, run_checked_bind_eq_error_iff, run_get_bind, run_modify_bind, run_classify_bind,
      run_pure_ne_error, and_false, exists_false, or_false] at h
    obtain ⟨⟨c, _, hf⟩, _⟩ | ⟨_, _, ⟨⟨c, _, hf⟩, _⟩ | ⟨_, _, ⟨c, _, hf⟩, _⟩⟩ := h
    all_goals exact ⟨c, hf⟩

/-- A settlement settles the one side and then the other, and answers what both paid; if it settled any, it counts
and equity is marked. -/
theorem total_of_resolve (h : resolve asset outcome b = .ok n b') :
    ∃ yes u total no v, resolveSide asset outcome .yes (b.withPrice asset outcome) = .ok yes u ∧
      addNet .zero yes = .ok total ∧ resolveSide asset outcome .no u = .ok no v ∧ addNet total no = .ok n ∧
      ((yes = none ∧ no = none ∧ b' = v) ∨ ((yes.isSome ∨ no.isSome) ∧
        ∃ equity, markEquity { v with tradesExecuted := v.tradesExecuted + 1 } = .ok equity b')) := by
  unfold resolve at h
  rw [run_setPrice_bind] at h
  obtain ⟨yes, u, hy, h⟩ := run_bind_eq_ok_iff.1 h
  obtain ⟨total, ht, h⟩ := run_checked_bind_eq_ok_iff.1 h
  obtain ⟨no, v, hn, h⟩ := run_bind_eq_ok_iff.1 h
  obtain ⟨total', ht', h⟩ := run_checked_bind_eq_ok_iff.1 h
  by_cases hs : (yes.isSome || no.isSome) = true
  · rw [if_pos hs] at h
    simp only [countExecuted, run_modify_bind] at h
    obtain ⟨_, w, hm, h⟩ := run_bind_eq_ok_iff.1 h
    obtain ⟨rfl, rfl⟩ := run_pure_eq_ok_iff.1 h
    exact ⟨yes, u, total, no, v, hy, ht, hn, ht', .inr ⟨by simpa using hs, run_discard_eq_ok_iff.1 hm⟩⟩
  · rw [if_neg hs] at h
    obtain ⟨rfl, hv⟩ := run_pure_eq_ok_iff.1 h
    simp only [Bool.or_eq_true, not_or, Option.not_isSome_iff_eq_none] at hs
    exact ⟨yes, u, total, no, v, hy, ht, hn, ht', .inl ⟨hs.1, hs.2, hv.symm⟩⟩

/-- A settlement settles the one side and then the other; if it settled any, it counts and equity is marked. -/
theorem resolve_eq_ok (h : resolve asset outcome b = .ok n b') :
    ∃ yes u no v, resolveSide asset outcome .yes (b.withPrice asset outcome) = .ok yes u ∧
      resolveSide asset outcome .no u = .ok no v ∧
      ((yes = none ∧ no = none ∧ b' = v) ∨ ((yes.isSome ∨ no.isSome) ∧
        ∃ equity, markEquity { v with tradesExecuted := v.tradesExecuted + 1 } = .ok equity b')) := by
  obtain ⟨yes, u, _, no, v, hy, _, hn, _, hv⟩ := total_of_resolve h
  exact ⟨yes, u, no, v, hy, hn, hv⟩

theorem resolve_eq_error (h : resolve asset outcome b = .error f b') : ∃ c, f = .arithmetic c := by
  unfold resolve at h
  rw [run_setPrice_bind] at h
  obtain h | ⟨_, _, _, h⟩ := run_bind_eq_error_iff.1 h
  · exact resolveSide_eq_error h
  obtain ⟨⟨c, _, hf⟩, _⟩ | ⟨_, _, h⟩ := run_checked_bind_eq_error_iff.1 h
  · exact ⟨c, hf⟩
  obtain h | ⟨_, _, _, h⟩ := run_bind_eq_error_iff.1 h
  · exact resolveSide_eq_error h
  obtain ⟨⟨c, _, hf⟩, _⟩ | ⟨_, _, h⟩ := run_checked_bind_eq_error_iff.1 h
  · exact ⟨c, hf⟩
  split at h
  · simp only [countExecuted, run_modify_bind] at h
    obtain h | ⟨_, _, _, h⟩ := run_bind_eq_error_iff.1 h
    · exact markEquity_eq_error (run_discard_eq_error_iff.1 h)
    · exact absurd h run_pure_ne_error
  · exact absurd h run_pure_ne_error

theorem reject_eq_ok {kind : TradeKind} {u : Unit} (h : reject asset kind price b = .ok u b') :
    kind.isRejection = true ∧ b' = b.withRecord asset kind price .zero .zero .zero := by
  simp only [reject, record, run_lift_bind_eq_ok_iff, ensure_eq_ok_iff, run_modify_eq_ok_iff] at h
  obtain ⟨_, hk, rfl⟩ := h
  exact ⟨hk, rfl⟩

theorem reject_eq_error {kind : TradeKind} (h : reject asset kind price b = .error f b') :
    kind.isRejection = false := by
  simp only [reject, record, run_lift_bind_eq_error_iff, ensure_eq_error_iff, run_modify_ne_error, and_false,
    exists_false, or_false, Bool.not_eq_true] at h
  exact h.1.1

end Broker
end OutcomeMarket

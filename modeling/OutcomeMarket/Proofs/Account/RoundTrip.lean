import OutcomeMarket.Proofs.Account.Faults
import OutcomeMarket.Proofs.Account.Frame
import OutcomeMarket.Proofs.Decimal.Refund

/-! Buying and selling again at one quote. As long as the price limits leave the price of a buy above that of a
sale, the way in and out brings nothing: cash may grow in its last digit, by rounding, and only if the sale is worth
as much as the buy. Where the limits turn the prices around, the trader gains. -/
namespace OutcomeMarket

/-- What a share of one side is worth at a YES price. -/
def OutcomeSide.worth : OutcomeSide → ℚ → ℚ
  | yes, q => q
  | no, q => 1 - q

namespace Broker

/-- A way out of a position. -/
inductive Exit where
  | sellAll (available : Decimal)
  | liquidate
  deriving DecidableEq, Repr

def Exit.run (asset : String) (side : OutcomeSide) (quote : Decimal) : Exit → BrokerM Decimal
  | sellAll available => Broker.sellAll asset side quote available
  | liquidate => Broker.liquidate asset quote

/-- Before the limits apply, a buy costs no less than the lowest price of a sale, and a sale pays no more than the
highest price of a buy. -/
structure WithinLimits (b : Broker) (side : OutcomeSide) (quote : Decimal) : Prop where
  buy_ge : minExecutionPrice.toRat ≤ side.worth quote.toRat + b.config.spreadPenalty.toRat
  sell_le : side.worth quote.toRat - b.config.spreadPenalty.toRat ≤ maxExecutionPrice.toRat

/-- What a way out of one side brings in: nothing, or the worth of shares that were held. -/
inductive Proceeds (b : Broker) (asset : String) (side : OutcomeSide) (quote : Decimal) (b' : Broker) : Prop where
  | nothing (hc : b'.cash = b.cash)
  | sold (fill : Fill) (sale : Trade) (hp : b.sellPrice side quote = .ok fill.price) (h0 : .zero < fill.shares)
      (hs : fill.shares ≤ (b.position asset side).shares) (hv : fill.shares.mul fill.price = .ok fill.value)
      (hc : b.cash.add fill.value = .ok b'.cash) (ht : b'.trades = b.trades ++ [sale])
      (hk : sale.kind = .sellOf side) (hsale : sale.value = fill.value)

/-- No more cash than before, up to the last digit; and if there is more, then the records are those of a buy and of
a sale for no less than the buy cost. -/
structure NoGain (b : Broker) (side : OutcomeSide) (b' : Broker) : Prop where
  cash_le : b'.cash.toRat ≤ b.cash.toRat + 2 / 10 ^ 28 * max 1 b.cash.toRat
  recorded : b.cash < b'.cash →
    ∃ bought sold, b'.trades = b.trades ++ [bought, sold] ∧ bought.kind = .buyOf side ∧ sold.kind = .sellOf side ∧
      bought.value ≤ sold.value

variable {b b' u : Broker} {asset : String} {side : OutcomeSide} {fill : Fill} {p : Position}
  {quote dollars available cash price n : Decimal} {limit : Option Decimal}

section Prices

/-- At a quote between nothing and a dollar, both sides have a price. -/
theorem exists_priceFromYes (ho : FairOutcome quote) :
    ∃ price, side.priceFromYes quote = .ok price ∧ price.toRat = side.worth quote.toRat := by
  cases side with
  | yes => exact ⟨quote, rfl, rfl⟩
  | no => exact Decimal.exists_one_sub ho.1 ho.2

theorem toRat_priceFromYes (ho : FairOutcome quote) (h : side.priceFromYes quote = .ok price) :
    price.toRat = side.worth quote.toRat := by
  obtain ⟨d, hd, hv⟩ := exists_priceFromYes ho
  rw [h] at hd
  cases hd
  exact hv

/-- At a quote between the limits either side is worth something between the limits. -/
theorem worth_bounds (side : OutcomeSide) (hmin : minExecutionPrice ≤ quote) (hmax : quote ≤ maxExecutionPrice) :
    minExecutionPrice.toRat ≤ side.worth quote.toRat ∧ side.worth quote.toRat ≤ maxExecutionPrice.toRat := by
  rw [Decimal.le_iff_toRat] at hmin hmax
  cases side with
  | yes => exact ⟨hmin, hmax⟩
  | no =>
    have hsum : minExecutionPrice.toRat + maxExecutionPrice.toRat = 1 := by
      norm_num [minExecutionPrice, maxExecutionPrice]
    simp only [OutcomeSide.worth]
    constructor <;> linarith

/-- Quotes between the limits are within them, whatever the penalty. -/
theorem withinLimits_of_band (hv : b.config.Valid) (hmin : minExecutionPrice ≤ quote)
    (hmax : quote ≤ maxExecutionPrice) : b.WithinLimits side quote := by
  have hp := Decimal.zero_le_iff_toRat.1 hv.penalty_nonneg
  obtain ⟨hge, hle⟩ := worth_bounds side hmin hmax
  exact ⟨by linarith, by linarith⟩

theorem sellPrice_le_buyPrice {bought sold : Decimal} (hv : b.config.Valid) (hq : FairOutcome quote)
    (hl : b.WithinLimits side quote) (hb : b.buyPrice side quote = .ok bought)
    (hs : b.sellPrice side quote = .ok sold) : sold ≤ bought := by
  simp only [buyPrice, OutcomeMarket.bind_eq_ok_iff, pure_eq_ok_iff] at hb
  simp only [sellPrice, OutcomeMarket.bind_eq_ok_iff, pure_eq_ok_iff] at hs
  obtain ⟨quoted, hy, up, hup, rfl⟩ := hb
  obtain ⟨quoted', hy', down, hdown, rfl⟩ := hs
  rw [hy] at hy'
  cases hy'
  have hw := toRat_priceFromYes hq hy
  have hp := Decimal.zero_le_iff_toRat.1 hv.penalty_nonneg
  have hu := Decimal.rounds_add hup
  have hd := Decimal.rounds_sub hdown
  rw [hw] at hu hd
  have hmm : minExecutionPrice ≤ maxExecutionPrice := by decide
  have hdu : down ≤ up := Decimal.le_iff_toRat.2 (hd.mono hu (by linarith))
  have hdm : down ≤ maxExecutionPrice := Decimal.le_iff_toRat.2 (hd.le_of_le hl.sell_le)
  have hmu : minExecutionPrice ≤ up := Decimal.le_iff_toRat.2 (hu.le_of_ge hl.buy_ge)
  exact Decimal.max_le (Decimal.le_min hdu hdm) (Decimal.le_min hmu hmm)

end Prices

section Exits

theorem sell_of_flat (h : (b.position asset side).isFlat = true) :
    sell asset side quote limit b = .ok .zero (b.withPrice asset quote) := by
  have h0 := Position.shares_le_zero_of_isFlat h
  have hq : (b.withPrice asset quote).quoteSell asset side quote limit = .ok none := by
    unfold quoteSell
    exact if_pos h0
  unfold sell
  rw [run_setPrice_bind, run_get_bind, hq]
  rfl

theorem Proceeds.of_withPrice (h : Proceeds (b.withPrice asset quote) asset side quote b') :
    Proceeds b asset side quote b' := by
  cases h with
  | nothing hc => exact .nothing hc
  | sold fill sale hp h0 hs hv hc ht hk hsale => exact .sold fill sale hp h0 hs hv hc ht hk hsale

/-- The price of an asset does not matter to what has come in. -/
theorem Proceeds.noting (h : Proceeds b asset side quote b') :
    Proceeds b asset side quote (b'.withPrice asset quote) := by
  cases h with
  | nothing hc => exact .nothing hc
  | sold fill sale hp h0 hs hv hc ht hk hsale => exact .sold fill sale hp h0 hs hv hc ht hk hsale

theorem proceeds_of_interrupted (hq : b.quoteSell asset side quote limit = .ok (some fill))
    (h : Interrupted b asset side fill b') : Proceeds b asset side quote b' := by
  obtain ⟨hp, h0, hs, hv⟩ := quoteSell_eq_some hq
  cases h with
  | unpaid hr hc => exact .nothing rfl
  | unvalued peak hr hc => exact .sold fill _ hp h0 hs hv hc rfl rfl rfl

theorem proceeds_of_bookSell (hq : b.quoteSell asset side quote limit = .ok (some fill))
    (h : bookSell asset side fill b = .ok () b') : Proceeds b asset side quote b' := by
  obtain ⟨hp, h0, hs, hv⟩ := quoteSell_eq_some hq
  obtain ⟨rest, cash, equity, hr, _, hc, hm⟩ := bookSell_eq_ok_iff.1 h
  have hb := sameBooks_of_markEquity hm
  refine .sold fill _ hp h0 hs hv ?_ hb.trades rfl rfl
  rw [hb.cash]
  exact hc

theorem proceeds_of_sell : Proceeds b asset side quote (after (sell asset side quote limit) b) := by
  cases h : sell asset side quote limit b with
  | ok n b' =>
    rw [after_of_ok h]
    obtain rfl | ⟨fill, hq, hb⟩ := sell_eq_ok h
    · exact .nothing rfl
    · exact (proceeds_of_bookSell hq hb).of_withPrice
  | error f b' =>
    rw [after_of_error h]
    obtain ⟨rfl, _⟩ | ⟨fill, hq, hi⟩ := state_of_sell_error h
    · exact .nothing rfl
    · exact (proceeds_of_interrupted hq hi).of_withPrice

theorem proceeds_of_sellAll : Proceeds b asset side quote (after (sellAll asset side quote available) b) := by
  unfold sellAll
  rw [after_bind]
  change Proceeds b asset side quote (after (liftM (b.cap available) >>= _) b)
  cases hc : b.cap available with
  | error c => exact .nothing rfl
  | ok limit => exact proceeds_of_sell

/-- With nothing on the other side, a liquidation is a sale of the one side. -/
theorem proceeds_of_liquidate (hf : (b.position asset side.opposite).isFlat = true) :
    Proceeds b asset side quote (after (liquidate asset quote) b) := by
  have hlast : ∀ (yes : Decimal) (u : Broker), after (sell asset .no quote none >>= fun no =>
      liftM (yes.add no)) u = after (sell asset .no quote none) u := by
    intro yes u
    apply after_bind_of_still
    intro no v
    exact after_checked _
  unfold liquidate
  rw [after_bind]
  cases side with
  | yes =>
    have hsell : Proceeds b asset .yes quote (after (sell asset .yes quote none) b) := proceeds_of_sell
    cases h : sell asset .yes quote none b with
    | error f u =>
      rw [after_of_error h] at hsell
      exact hsell
    | ok yes u =>
      rw [after_of_ok h] at hsell
      have hu : (u.position asset .no).isFlat = true := by
        rw [position_of_sell (.inr (by decide)) h]
        exact hf
      change Proceeds b asset .yes quote (after (sell asset .no quote none >>= _) u)
      rw [hlast, after_of_ok (sell_of_flat hu)]
      exact hsell.noting
  | no =>
    have hyes : sell asset .yes quote none b = .ok .zero (b.withPrice asset quote) := sell_of_flat hf
    rw [hyes]
    change Proceeds b asset .no quote (after (sell asset .no quote none >>= _) _)
    rw [hlast]
    exact proceeds_of_sell.of_withPrice

theorem proceeds_of_exit {exit : Exit} (hx : exit = .liquidate → (b.position asset side.opposite).isFlat = true) :
    Proceeds b asset side quote (after (exit.run asset side quote) b) := by
  cases exit with
  | sellAll available => exact proceeds_of_sellAll
  | liquidate => exact proceeds_of_liquidate (hx rfl)

/-- Nothing comes out of an empty side. -/
theorem Proceeds.of_flat (h : Proceeds b asset side quote b') (hf : (b.position asset side).isFlat = true) :
    b'.cash = b.cash := by
  cases h with
  | nothing hc => exact hc
  | sold fill sale hp h0 hs hv hc ht hk hsale =>
    rw [Decimal.lt_iff_toRat, Decimal.toRat_zero] at h0
    rw [Decimal.le_iff_toRat, Decimal.isZero_iff_toRat.1 hf] at hs
    linarith

end Exits

section RoundTrip

/-- A buy notes the quote and then buys something or nothing, whether it faults or not. -/
theorem after_buy (b : Broker) (asset : String) (side : OutcomeSide) (quote dollars available : Decimal) :
    (after (buy asset side quote dollars available) b = b ∨
      after (buy asset side quote dollars available) b = b.withPrice asset quote) ∨
    ∃ fill p cash, (b.withPrice asset quote).quoteBuy side quote dollars available = .ok (some fill) ∧
      (b.position asset side).bought fill.shares fill.value = .ok p ∧ b.cash.sub fill.value = .ok cash ∧
      after (buy asset side quote dollars available) b =
        (b.withPrice asset quote).withPurchase asset side fill p cash := by
  cases h : buy asset side quote dollars available b with
  | error f b' =>
    rw [after_of_error h]
    exact .inl (state_of_buy_error h)
  | ok n b' =>
    rw [after_of_ok h]
    obtain rfl | ⟨fill, hq, hb⟩ := buy_eq_ok h
    · exact .inl (.inr rfl)
    · obtain ⟨p, cash, hp, hc, _, rfl⟩ := bookBuy_eq_ok_iff.1 hb
      exact .inr ⟨fill, p, cash, hq, hp, hc, rfl⟩

/-- Out of an empty side, a buy holds what it bought. -/
theorem shares_of_bought {q : Position} {filled spent : Decimal} (hf : p.isFlat = true)
    (h : p.bought filled spent = .ok q) : q.shares.toRat = filled.toRat := by
  obtain ⟨_, shares, _, _, _, hs, _, _, _, rfl⟩ := bought_eq_ok_iff.1 h
  have hr := Decimal.rounds_add hs
  rw [Decimal.isZero_iff_toRat.1 hf, zero_add] at hr
  exact hr.eq_toRat

/-- Cash after a buy and a sale of what was bought, in terms of what the records say of them. -/
theorem cash_of_refund {worth proceeds back : Decimal} (hp1 : fill.price ≤ .one)
    (hq : b.quoteBuy side quote dollars available = .ok (some fill))
    (hw : fill.shares.mul fill.price = .ok worth) (hle : proceeds ≤ worth) (h0 : .zero ≤ proceeds)
    (hc : b.cash.sub fill.value = .ok cash) (hb : cash.add proceeds = .ok back) :
    back.toRat ≤ b.cash.toRat + 2 / 10 ^ 28 * max 1 b.cash.toRat ∧ (b.cash < back → fill.value ≤ proceeds) := by
  obtain ⟨hv0, _, hvc⟩ := quoteBuy_value hq
  obtain ⟨_, _, _, hp0, _, most, wanted, cost, worth', _, _, hcost, hw', hv, hcut⟩ := quoteBuy_worth hq
  rw [hw] at hw'
  cases hw'
  constructor
  · by_cases hpv : proceeds ≤ fill.value
    · exact Decimal.refund_le h0 hpv hvc hc hb
    · -- the sale is worth more than the cash was, so all of it was spent
      rw [Decimal.not_le, Decimal.lt_iff_toRat, hv, Decimal.toRat_min] at hpv
      rw [Decimal.le_iff_toRat] at hle
      have hlt : b.cash.toRat < worth.toRat := by
        by_contra hn
        rw [min_eq_left (not_lt.1 hn)] at hpv
        linarith
      have hall : fill.value.toRat = b.cash.toRat := by
        rw [hv, Decimal.toRat_min, min_eq_right hlt.le]
      obtain ⟨hle', hsame⟩ | ⟨_, hdiv⟩ := hcut
      · rw [← hsame, hw] at hcost
        cases hcost
        rw [Decimal.le_iff_toRat] at hle'
        linarith
      · have hr := Decimal.rounds_sub hc
        rw [hall, sub_self, ← Decimal.toRat_zero] at hr
        have hr' := Decimal.rounds_add hb
        rw [hr.eq_toRat, Decimal.toRat_zero, zero_add] at hr'
        rw [hr'.eq_toRat]
        have hcash : .zero ≤ b.cash := Decimal.le_trans hv0 hvc
        exact hle.trans (Decimal.mul_div_le hcash hp0 hp1 hdiv hw)
  · intro hgain
    by_contra hlt
    rw [Decimal.not_le] at hlt
    exact absurd (Decimal.refund_le_of_lt hv0 hvc hlt hc hb) (Decimal.not_le.2 hgain)

theorem noGain_of_le (h : b'.cash ≤ b.cash) : NoGain b side b' := by
  refine ⟨(Decimal.le_iff_toRat.1 h).trans (le_add_of_nonneg_right (by positivity)), ?_⟩
  intro hlt
  exact absurd h (Decimal.not_le.2 hlt)

/-- A way out of what was just bought. -/
theorem noGain_of_resale (hv : b.config.Valid) (hf : (b.position asset side).isFlat = true) (hq : FairOutcome quote)
    (hl : b.WithinLimits side quote) (hquote : b.quoteBuy side quote dollars available = .ok (some fill))
    (hp : (b.position asset side).bought fill.shares fill.value = .ok p) (hc : b.cash.sub fill.value = .ok cash)
    (h : Proceeds (b.withPurchase asset side fill p cash) asset side quote b') : NoGain b side b' := by
  obtain ⟨_, _, hpb, hp0, hs0, worth, hw, _⟩ := quoteBuy_eq_some hquote
  cases h with
  | nothing hcash =>
    have hle : cash ≤ b.cash := Decimal.sub_le_left (quoteBuy_value hquote).1 hc
    have hcash' : b'.cash = cash := hcash
    apply noGain_of_le
    rw [hcash']
    exact hle
  | sold out sale hps ho0 hos hov hoc ht hk hsale =>
    rw [position_withPurchase] at hos
    have hprice : out.price ≤ fill.price := sellPrice_le_buyPrice hv hq hl hpb hps
    have hsp := sellPrice_nonneg hps
    have hov0 := Decimal.zero_le_mul (Decimal.le_of_lt ho0) hsp hov
    -- no more shares are sold than were bought, and for no higher price
    have hle : out.value ≤ worth := by
      refine Decimal.mul_mono ?_ hov hw
      rw [Decimal.le_iff_toRat] at hos hprice
      rw [shares_of_bought hf hp] at hos
      rw [Decimal.zero_lt_iff_toRat] at ho0 hs0
      rw [Decimal.zero_le_iff_toRat] at hsp
      gcongr
    obtain ⟨hbound, hgain⟩ := cash_of_refund (buyPrice_le_one hpb) hquote hw hle hov0 hc hoc
    refine ⟨hbound, ?_⟩
    intro hlt
    refine ⟨⟨asset, b.clock, .buyOf side, fill.price, fill.shares, fill.value, .zero⟩, sale, ?_, rfl, hk, ?_⟩
    · rw [ht]
      exact List.append_assoc b.trades _ _
    · rw [hsale]
      exact hgain hlt

/-- Buying one side and selling it again at one quote gains nothing. -/
theorem cash_of_round_trip {exit : Exit} (hv : b.config.validate = .ok ())
    (hf : (b.position asset side).isFlat = true) (hq : FairOutcome quote) (hl : b.WithinLimits side quote)
    (hx : exit = .liquidate → (b.position asset side.opposite).isFlat = true)
    (h : after (exit.run asset side quote) (after (buy asset side quote dollars available) b) = b') :
    NoGain b side b' := by
  rw [BrokerConfig.validate_eq_ok_iff] at hv
  obtain (hu | hu) | ⟨fill, p, cash, hquote, hp, hc, hu⟩ := after_buy b asset side quote dollars available
  · have hn : Proceeds b asset side quote b' := by
      rw [← h, hu]
      exact proceeds_of_exit hx
    exact noGain_of_le (hn.of_flat hf ▸ Decimal.le_refl _)
  · have hn : Proceeds (b.withPrice asset quote) asset side quote b' := by
      rw [← h, hu]
      exact proceeds_of_exit hx
    exact noGain_of_le (hn.of_flat hf ▸ Decimal.le_refl _)
  · have hother : exit = .liquidate → (((b.withPrice asset quote).withPurchase asset side fill p cash).position
        asset side.opposite).isFlat = true := by
      intro hexit
      have hne : side.opposite ≠ side := by cases side <;> decide
      rw [← hx hexit]
      exact congrArg Position.isFlat (Ledger.get_set_of_ne b.ledger (.inr hne) p)
    have hn : Proceeds ((b.withPrice asset quote).withPurchase asset side fill p cash) asset side quote b' := by
      rw [← h, hu]
      exact proceeds_of_exit hother
    have hu : (b.withPrice asset quote).WithinLimits side quote := ⟨hl.buy_ge, hl.sell_le⟩
    obtain ⟨hbound, hgain⟩ := noGain_of_resale (b := b.withPrice asset quote) hv hf hq hu hquote hp hc hn
    exact ⟨hbound, hgain⟩

/-- In and out at fifty cents: the penalty is paid twice. -/
theorem cash_of_round_trip_at_half : ∃ b' : Broker,
    after ((Exit.sellAll (.lit 1000 0)).run "rain" .yes (.lit 50 2))
      (after (buy "rain" .yes (.lit 50 2) (.lit 100 0) (.lit 1000 0)) (new .standard .oldestFirst)) = b' ∧
    b'.trades.length = 2 ∧ NoGain (new .standard .oldestFirst) .yes b' := by
  have hv : (new .standard .oldestFirst).config.validate = .ok () := rfl
  have hl : (new .standard .oldestFirst).WithinLimits .yes (.lit 50 2) :=
    withinLimits_of_band (BrokerConfig.validate_eq_ok_iff.1 hv) (by decide) (by decide)
  have hf : ((new .standard .oldestFirst).position "rain" .yes).isFlat = true := by decide
  refine ⟨_, rfl, by decide +kernel, ?_⟩
  exact cash_of_round_trip hv hf (by decide) hl (fun h => Exit.noConfusion h) rfl

/-- Whether a buy into an empty side and a way out at the same quote leave more cash than there was. -/
def RoundTripGain (b : Broker) (asset : String) (side : OutcomeSide) (quote dollars available : Decimal)
    (exit : Exit) : Prop :=
  b.config.validate = .ok () ∧ (b.position asset side).isFlat = true ∧ FairOutcome quote ∧
    .zero ≤ dollars ∧ .zero ≤ available ∧
    b.cash < (after (exit.run asset side quote) (after (buy asset side quote dollars available) b)).cash

/-- A hundred shares bought at the highest price and sold for a dollar each; a last digit gained by rounding; and a
liquidation that sells the other side as well. -/
theorem gain_of_round_trip :
    RoundTripGain (new { BrokerConfig.standard with spreadPenalty := .zero } .oldestFirst)
      "rain" .yes .one (.lit 99 0) (.lit 1000 0) (.sellAll (.lit 1000 0)) ∧
    RoundTripGain (new { BrokerConfig.standard with startingCash := .lit 790 0, spreadPenalty := .zero } .oldestFirst)
      "rain" .yes (.lit 97 2) (.lit 790 0) (.lit 1000 0) (.sellAll (.lit 1000 0)) ∧
    RoundTripGain (after (buy "rain" .no (.lit 50 2) (.lit 103 0) (.lit 1000 0)) (new .standard .oldestFirst))
      "rain" .yes (.lit 50 2) (.lit 103 0) (.lit 1000 0) .liquidate := by
  unfold RoundTripGain
  decide +kernel

end RoundTrip
end Broker
end OutcomeMarket

import OutcomeMarket.Proofs.Account.Closing
import OutcomeMarket.Proofs.Account.Faults

/-! The worth of an account whose prices lie between nothing and a dollar. Every holding adds to the cash and takes
nothing from it, so the account is worth its cash at least, or more than can be written. Then the peak is never below
the start, and no fall from it is deeper than the whole. Buys and sales keep this, also when they fault. -/
namespace OutcomeMarket

/-- What is left of a dollar is between nothing and a dollar too. -/
theorem OutcomeSide.exists_fair_price (side : OutcomeSide) {quote : Decimal} (h : Broker.FairOutcome quote) :
    ∃ price, side.priceFromYes quote = .ok price ∧ Broker.FairOutcome price := by
  cases side with
  | yes => exact ⟨quote, rfl, h⟩
  | no =>
    obtain ⟨price, hp, -⟩ := Decimal.exists_one_sub h.1 h.2
    exact ⟨price, hp, Decimal.zero_le_sub h.2 hp, Decimal.sub_le_left h.1 hp⟩

/-- What is made of the answer does not matter to the state. -/
theorem after_map {ε σ α β : Type} {x : EStateM ε σ α} {g : α → β} {s : σ} : after (g <$> x) s = after x s := by
  unfold after
  simp only [Functor.map, EStateM.map]
  cases x s <;> rfl

namespace Broker

/-- A sum that comes to its start at least, unless it outgrows the numbers. -/
def Rises (start : Decimal) (x : Decimal.Checked Decimal) : Prop :=
  (∃ v, x = .ok v ∧ start ≤ v) ∨ x = .error .additionOverflow

section Worth

variable {start v n shares price : Decimal} {x : Decimal.Checked Decimal} {f : Decimal → Decimal.Checked Decimal}
  {pair : PositionPair} {last : Option Decimal}

theorem rises_pure (v : Decimal) : Rises v (pure v) := .inl ⟨v, rfl, Decimal.le_refl v⟩

theorem Rises.bind (h : Rises start x) (hf : ∀ v, Rises v (f v)) : Rises start (x >>= f) := by
  obtain ⟨v, rfl, hv⟩ | rfl := h
  · obtain ⟨w, hw, hle⟩ | hw := hf v
    · exact .inl ⟨w, hw, Decimal.le_trans hv hle⟩
    · exact .inr hw
  · exact .inr rfl

theorem rises_add (h0 : .zero ≤ n) : Rises v (v.add n) := by
  cases h : v.add n with
  | ok d => exact .inl ⟨d, rfl, Decimal.le_add_right h0 h⟩
  | error c =>
    obtain ⟨rfl, -⟩ := Decimal.add_eq_error_iff.1 h
    exact .inr rfl

/-- Shares are worth no more dollars than there are shares, so that their worth can be written. -/
theorem exists_worth (h0 : .zero ≤ shares) (hp : FairOutcome price) :
    ∃ worth, shares.mul price = .ok worth ∧ .zero ≤ worth := by
  obtain ⟨worth, hw⟩ := Decimal.exists_part (a := shares) hp.1 hp.2
  exact ⟨worth, hw, Decimal.zero_le_mul h0 hp.1 hw⟩

theorem rises_sides {noPrice : Decimal.Checked Decimal} (hy : .zero ≤ pair.yes.shares) (hn : .zero ≤ pair.no.shares)
    (hp : FairOutcome price) (hno : ∃ p, noPrice = .ok p ∧ FairOutcome p) : Rises v (do
      let value ←
        if pair.yes.isFlat then pure v
        else do
          let worth ← pair.yes.shares.mul price
          v.add worth
      if pair.no.isFlat then pure value
      else do
        let price ← noPrice
        let worth ← pair.no.shares.mul price
        value.add worth) := by
  obtain ⟨p, rfl, hfair⟩ := hno
  -- the NO side, after whatever the YES side has come to
  have hrest : ∀ w, Rises w (if pair.no.isFlat then pure w else do
      let worth ← pair.no.shares.mul p
      w.add worth) := by
    intro w
    split
    · exact rises_pure w
    · obtain ⟨worth, hw, hpos⟩ := exists_worth hn hfair
      rw [hw]
      exact rises_add hpos
  by_cases hf : pair.yes.isFlat = true
  · rw [if_pos hf]
    exact (rises_pure v).bind hrest
  · rw [if_neg hf]
    obtain ⟨worth, hw, hpos⟩ := exists_worth hy hp
    rw [hw]
    exact (rises_add hpos).bind hrest

theorem rises_addHolding (hy : .zero ≤ pair.yes.shares) (hn : .zero ≤ pair.no.shares)
    (hl : ∀ p, last = some p → FairOutcome p) : Rises v (addHolding last v pair) := by
  unfold addHolding
  cases last with
  | none => exact rises_sides hy hn ⟨Decimal.le_refl _, by decide⟩ ⟨unknownNoValuation, rfl, by decide, by decide⟩
  | some p => exact rises_sides hy hn (hl p rfl) (OutcomeSide.no.exists_fair_price (hl p rfl))

theorem rises_foldlM {es : List (String × PositionPair)} {prices : TextMap Decimal}
    (hes : ∀ e ∈ es, .zero ≤ e.2.yes.shares ∧ .zero ≤ e.2.no.shares)
    (hp : ∀ asset p, prices.find? asset = some p → FairOutcome p) :
    Rises v (es.foldlM (fun v e => addHolding (prices.find? e.1) v e.2) v) := by
  induction es generalizing v with
  | nil => exact rises_pure v
  | cons e es ih =>
    obtain ⟨hhead, htail⟩ := List.forall_mem_cons.1 hes
    rw [List.foldlM_cons]
    exact (rises_addHolding hhead.1 hhead.2 (hp e.1)).bind fun w => ih htail

end Worth

/-- An account without debts, negative holdings or prices beyond a dollar. -/
structure Solvent (b : Broker) : Prop where
  cash_nonneg : .zero ≤ b.cash
  shares_nonneg : ∀ e ∈ b.ledger.pairs.entries, .zero ≤ e.2.yes.shares ∧ .zero ≤ e.2.no.shares
  price : ∀ asset p, b.lastKnownPrice asset = some p → FairOutcome p

/-- A sound account at prices between nothing and a dollar, with the extremes of its equity in their bounds. -/
structure WellValued (config : BrokerConfig) (b : Broker) : Prop where
  config_eq : b.config = config
  sound : b.Sound
  price : ∀ asset p, b.lastKnownPrice asset = some p → FairOutcome p
  start_le_peak : config.startingCash ≤ b.peakEquity
  drawdown_nonneg : .zero ≤ b.maxDrawdown
  drawdown_le_one : b.maxDrawdown ≤ .one

/-- What the numbers of an account keep to: prices between nothing and a dollar, cash that is no debt and no more than
the worth, a peak not below the start, and a drawdown between nothing and all of it. -/
structure InBounds (start : Decimal) (b : Broker) : Prop where
  price : ∀ asset p, b.lastKnownPrice asset = some p → .zero ≤ p ∧ p ≤ .one
  cash_nonneg : .zero ≤ b.cash
  cash_le_value : Rises b.cash b.value
  start_le_peak : start ≤ b.peakEquity
  drawdown_nonneg : .zero ≤ b.maxDrawdown
  drawdown_le_one : b.maxDrawdown ≤ .one

variable {config : BrokerConfig} {b b' : Broker} {asset : String} {side : OutcomeSide} {fill : Fill} {f : Fault}
  {quote dollars available peak fall e n : Decimal} {limit : Option Decimal}

theorem wellValued_new (hv : config.Valid) (visiting : Visiting) : (new config visiting).WellValued config := by
  have h1 : Decimal.zero ≤ .one := by decide
  refine ⟨rfl, .new hv visiting, fun asset p hp => ?_, Decimal.le_refl _, Decimal.le_refl _, h1⟩
  cases hp

theorem drawdown_bounds (h0 : .zero ≤ e) (hle : e ≤ peak) (h : drawdown peak e = .ok fall) :
    .zero ≤ fall ∧ fall ≤ .one := by
  unfold drawdown at h
  by_cases hp : .zero < peak
  · rw [if_pos hp] at h
    obtain ⟨drop, hdrop, hdiv⟩ := OutcomeMarket.bind_eq_ok_iff.1 h
    have hnn := Decimal.zero_le_sub hle hdrop
    have hdp := Decimal.sub_le_left h0 hdrop
    exact ⟨Decimal.zero_le_div hnn (Decimal.le_of_lt hp) hdiv, Decimal.div_le_one hp hdp hdiv⟩
  · rw [if_neg hp] at h
    cases h
    exact ⟨Decimal.le_refl _, by decide⟩

theorem Sound.solvent (h : b.Sound) (hp : ∀ asset p, b.lastKnownPrice asset = some p → FairOutcome p) : b.Solvent := by
  refine ⟨h.cash_nonneg, fun e he => ?_, hp⟩
  have hs := h.position_sound e.1
  unfold position Ledger.get at hs
  rw [Ledger.pair_of_mem he] at hs
  exact ⟨(hs .yes).shares_nonneg, (hs .no).shares_nonneg⟩

theorem fair_withPrice (h : ∀ asset p, b.lastKnownPrice asset = some p → FairOutcome p) (hq : FairOutcome quote)
    (other : String) (p : Decimal) (hp : (b.withPrice asset quote).lastKnownPrice other = some p) : FairOutcome p := by
  have hp : (b.prices.insert asset quote).find? other = some p := hp
  rw [TextMap.find?_insert] at hp
  split at hp
  · cases hp
    exact hq
  · exact h other p hp

namespace WellValued

theorem solvent (h : b.WellValued config) : b.Solvent := h.sound.solvent h.price

/-- The account is worth its cash, or more than can be written. -/
theorem rises (h : b.WellValued config) : Rises b.cash b.value :=
  rises_foldlM (fun e he => h.solvent.shares_nonneg e (Visiting.mem_order.1 he)) h.price

theorem inBounds (h : b.WellValued config) : b.InBounds config.startingCash :=
  ⟨h.price, h.sound.cash_nonneg, h.rises, h.start_le_peak, h.drawdown_nonneg, h.drawdown_le_one⟩

theorem value_nonneg (h : b.WellValued config) (hv : b.value = .ok e) : .zero ≤ e := by
  obtain ⟨v, hv', hle⟩ | hv' := h.rises
  · rw [hv] at hv'
    cases hv'
    exact Decimal.le_trans h.sound.cash_nonneg hle
  · rw [hv] at hv'
    cases hv'

theorem withPrice (h : b.WellValued config) (hq : FairOutcome quote) : (b.withPrice asset quote).WellValued config :=
  ⟨h.config_eq, h.sound.sameBooks (sameBooks_withPrice b asset quote), fair_withPrice h.price hq, h.start_le_peak,
    h.drawdown_nonneg, h.drawdown_le_one⟩

/-- Other books, as long as they are sound, at the same prices and extremes. -/
theorem rebooked (h : b.WellValued config) (hs : b'.Sound) (hc : b'.config = b.config) (hp : b'.prices = b.prices)
    (hk : b'.peakEquity = b.peakEquity) (hd : b'.maxDrawdown = b.maxDrawdown) : b'.WellValued config := by
  refine ⟨hc.trans h.config_eq, hs, fun asset p hq => h.price asset p ?_, ?_, ?_, ?_⟩
  · rwa [lastKnownPrice, hp] at hq
  · rw [hk]
    exact h.start_le_peak
  · rw [hd]
    exact h.drawdown_nonneg
  · rw [hd]
    exact h.drawdown_le_one

theorem withExtremes (h : b.WellValued config) (hp : b.peakEquity ≤ peak) (h0 : .zero ≤ fall) (h1 : fall ≤ .one) :
    (b.withExtremes peak fall).WellValued config :=
  ⟨h.config_eq, h.sound.sameBooks ⟨rfl, rfl, rfl, rfl, rfl, rfl, rfl⟩, h.price, Decimal.le_trans h.start_le_peak hp, h0,
    h1⟩

theorem after_markEquity (h : b.WellValued config) : (after markEquity b).WellValued config := by
  cases hm : markEquity b with
  | ok e b' =>
    obtain ⟨fall, hv, hf, rfl⟩ := markEquity_eq_ok_iff.1 hm
    obtain ⟨h0, h1⟩ := drawdown_bounds (h.value_nonneg hv) (Decimal.le_max_right b.peakEquity e) hf
    rw [after_of_ok hm]
    have hd := Decimal.le_trans h.drawdown_nonneg (Decimal.le_max_left b.maxDrawdown fall)
    exact h.withExtremes (Decimal.le_max_left _ e) hd (Decimal.max_le h.drawdown_le_one h1)
  | error f b' =>
    rw [after_of_error hm]
    obtain ⟨peak, hpeak, rfl⟩ := state_of_markEquity_error hm
    exact h.withExtremes hpeak h.drawdown_nonneg h.drawdown_le_one

theorem after_buy (h : b.WellValued config) (hq : FairOutcome quote) :
    (after (buy asset side quote dollars available) b).WellValued config := by
  have hp : (b.withPrice asset quote).WellValued config := h.withPrice hq
  cases hb : buy asset side quote dollars available b with
  | ok n b' =>
    rw [after_of_ok hb]
    obtain rfl | ⟨fill, hfill, hbook⟩ := buy_eq_ok hb
    · exact hp
    · obtain ⟨p, cash, hpos, hcash, -, rfl⟩ := bookBuy_eq_ok_iff.1 hbook
      exact hp.rebooked (hp.sound.purchase (.bought hfill hpos hcash)) rfl rfl rfl rfl
  | error f b' =>
    rw [after_of_error hb]
    obtain rfl | rfl := state_of_buy_error hb
    · exact h
    · exact hp

/-- A sale that was worked out leaves the account well valued wherever it stops: without the cash, without the mark,
or with both. -/
theorem after_bookSell (h : b.WellValued config) (hq : b.quoteSell asset side quote limit = .ok (some fill)) :
    (after (bookSell asset side fill) b).WellValued config := by
  obtain ⟨-, h0, hle, -⟩ := quoteSell_eq_some hq
  obtain ⟨rest, hr⟩ := Decimal.exists_sub_of_le (Decimal.le_of_lt h0) hle
  have hrest := Decimal.zero_le_sub hle hr
  cases hc : b.cash.add fill.value with
  | ok cash =>
    have hsold : (b.withSale asset side fill rest cash).WellValued config :=
      h.rebooked (h.sound.credit (.sold hq hr hc)) rfl rfl rfl rfl
    have hafter : after (bookSell asset side fill) b = after markEquity (b.withSale asset side fill rest cash) := by
      unfold after
      rw [run_bookSell hr hrest hc]
      exact after_map
    rw [hafter]
    exact hsold.after_markEquity
  | error c =>
    cases hb : bookSell asset side fill b with
    | ok u b' =>
      obtain ⟨-, cash, -, -, -, hc', -⟩ := bookSell_eq_ok_iff.1 hb
      rw [hc] at hc'
      cases hc'
    | error f b' =>
      rw [after_of_error hb]
      cases interrupted_of_bookSell_error h0 hle hb with
      | unpaid hr' hc' =>
        have hpos := (h.sound.position_sound asset side).withShares (Decimal.zero_le_sub hle hr')
        exact h.rebooked (h.sound.set hpos rfl rfl h.sound.cash_nonneg) rfl rfl rfl rfl
      | unvalued peak hr' hc' =>
        rw [hc] at hc'
        cases hc'

theorem after_sell (h : b.WellValued config) (hq : FairOutcome quote) :
    (after (sell asset side quote limit) b).WellValued config := by
  have hp : (b.withPrice asset quote).WellValued config := h.withPrice hq
  by_cases hfill : ∃ fill, (b.withPrice asset quote).quoteSell asset side quote limit = .ok (some fill)
  · obtain ⟨fill, hfill⟩ := hfill
    have hafter : after (sell asset side quote limit) b =
        after (bookSell asset side fill) (b.withPrice asset quote) := by
      unfold after
      rw [run_sell hfill]
      exact after_map
    rw [hafter]
    exact hp.after_bookSell hfill
  · cases hs : sell asset side quote limit b with
    | ok n b' =>
      rw [after_of_ok hs]
      obtain rfl | ⟨fill, hsome, -⟩ := sell_eq_ok hs
      · exact hp
      · exact absurd ⟨fill, hsome⟩ hfill
    | error f b' =>
      rw [after_of_error hs]
      obtain ⟨rfl, -⟩ | ⟨fill, hsome, -⟩ := state_of_sell_error hs
      · exact hp
      · exact absurd ⟨fill, hsome⟩ hfill

theorem after_sellAll (h : b.WellValued config) (hq : FairOutcome quote) :
    (after (sellAll asset side quote available) b).WellValued config := by
  cases hc : b.cap available with
  | ok most =>
    have hafter : after (sellAll asset side quote available) b = after (sell asset side quote (some most)) b := by
      unfold after
      rw [run_sellAll hc]
    rw [hafter]
    exact h.after_sell hq
  | error c =>
    cases hs : sellAll asset side quote available b with
    | ok n b' =>
      obtain ⟨most, hc', -⟩ := sellAll_eq_ok_iff.1 hs
      rw [hc] at hc'
      cases hc'
    | error f b' =>
      rw [after_of_error hs]
      obtain ⟨rfl, -⟩ | ⟨most, hc', -⟩ := state_of_sellAll_error hs
      · exact h
      · rw [hc] at hc'
        cases hc'

end WellValued
end Broker
end OutcomeMarket

import OutcomeMarket.Proofs.Account.Affordable
import OutcomeMarket.Proofs.Account.ShareCount

/-! Whether an operation can leave the numbers. At amounts of ordinary size and prices between nothing and a dollar
every sum, difference and product that an operation computes can be written, and so can the quotients by a share count
and by a peak, which are fractions. The quotient of the dollars by the price of a buy need not be one. It is cut down
to the shares on offer, but only after it has been computed, and where the penalty is small the price can be so small
that it cannot be written. -/
namespace OutcomeMarket

/-- The largest amount of ordinary size, in dollars or in shares. -/
def ordinarySize : Decimal := .lit 100000000000000000000 0

theorem toRat_ordinarySize : ordinarySize.toRat = 10 ^ 20 := by norm_num [ordinarySize]

/-- An amount of ordinary size. -/
def Decimal.Ordinary (a : Decimal) : Prop := zero ≤ a ∧ a ≤ ordinarySize

instance (a : Decimal) : Decidable a.Ordinary := inferInstanceAs (Decidable (_ ∧ _))

theorem Decimal.Ordinary.le {a : Decimal} (h : a.Ordinary) : a.toRat ≤ 10 ^ 20 := by
  rw [← toRat_ordinarySize]
  exact le_iff_toRat.1 h.2

namespace Operation

open Broker in
/-- Prices between nothing and a dollar, amounts of ordinary size, and only rejections noted as rejections. -/
def Admitted : Operation → Prop
  | buy _ _ quote dollars available => FairOutcome quote ∧ dollars.Ordinary ∧ available.Ordinary
  | sellAll _ _ quote available => FairOutcome quote ∧ available.Ordinary
  | liquidate _ quote => FairOutcome quote
  | resolve _ outcome => FairOutcome outcome
  | reject _ kind _ => kind.isRejection = true
  | setClock _ | setPrice .. | markEquity => True

instance : DecidablePred Admitted
  | buy .. | sellAll .. => inferInstanceAs (Decidable (_ ∧ _))
  | liquidate _ quote | resolve _ quote => inferInstanceAs (Decidable (Broker.FairOutcome quote))
  | reject _ kind _ => inferInstanceAs (Decidable (kind.isRejection = true))
  | setClock _ | setPrice .. | markEquity => inferInstanceAs (Decidable True)

end Operation

theorem Position.Sound.exists_bought {p : Position} {filled spent : Decimal} (h : p.Sound) (h0 : .zero ≤ spent)
    (hf : .zero < filled) (hle : spent ≤ filled) (hroom : p.shares.toRat + filled.toRat ≤ Decimal.maxMantissa) :
    ∃ q, p.bought filled spent = .ok q := by
  have hp := Decimal.zero_le_iff_toRat.1 h.shares_nonneg
  have hf' := Decimal.zero_lt_iff_toRat.1 hf
  obtain ⟨shares, hs⟩ := Decimal.exists_add (a := p.shares) (b := filled) (by rwa [abs_of_nonneg (by linarith)])
  obtain ⟨basis, hb⟩ := Decimal.exists_part (a := p.shares) h.price_nonneg h.price_le_one
  have hb0 := Decimal.zero_le_mul h.shares_nonneg h.price_nonneg hb
  have hbs := Decimal.mul_le_left h.shares_nonneg h.price_le_one hb
  obtain ⟨cost, hc⟩ := Decimal.exists_add (a := basis) (b := spent) (by
    rw [Decimal.zero_le_iff_toRat] at hb0 h0
    rw [Decimal.le_iff_toRat] at hbs hle
    rw [abs_of_nonneg (by linarith)]
    linarith)
  -- a share costs a dollar at most
  have hcs : cost ≤ shares := Decimal.add_le_add hbs hle hc hs
  have hpos : .zero < shares := by
    have hle := Decimal.le_iff_toRat.1 (Decimal.le_add_left h.shares_nonneg hs)
    exact Decimal.zero_lt_iff_toRat.2 (hf'.trans_le hle)
  obtain ⟨average, ha⟩ := Decimal.exists_div_of_le hpos (Decimal.zero_le_add hb0 h0 hc) hcs
  exact ⟨_, Broker.bought_eq_ok_iff.2 ⟨hf, shares, basis, cost, average, hs, hb, hc, ha, rfl⟩⟩

theorem Agrees.eq_error_iff {ε α β : Type} {R : α → β → Prop} {x : Except ε α} {y : Except ε β} {e : ε}
    (h : Agrees R x y) : x = .error e ↔ y = .error e := by cases h <;> simp

namespace Broker

/-- An account of ordinary size: no debt, no more cash and no more shares than that, and holdings valued at prices
between nothing and a dollar. -/
structure Ordinary (b : Broker) : Prop where
  cash : b.cash.Ordinary
  shares_le : b.ledger.shareCount ≤ ordinarySize.toRat
  price : ∀ asset p, b.lastKnownPrice asset = some p → FairOutcome p

/-- A buy whose dollars are there, but are worth more shares at its price than can be written. -/
def Overspends (b : Broker) (side : OutcomeSide) (quote dollars : Decimal) : Prop :=
  minOrderDollars < dollars ∧ dollars ≤ b.cash ∧
    ∃ price, b.buyPrice side quote = .ok price ∧ .zero < price ∧ ¬ Decimal.Fits (dollars.toRat / price.toRat)

/-- Whether an operation is such a buy. -/
def Overbuys (b : Broker) : Operation → Prop
  | .buy _ side quote dollars _ => b.Overspends side quote dollars
  | _ => False

/-- A sound account with at most so much cash and an ordinary number of shares, valued at prices between nothing and a
dollar. -/
structure Roomy (c : ℚ) (b : Broker) : Prop where
  sound : b.Sound
  price : ∀ asset p, b.lastKnownPrice asset = some p → FairOutcome p
  cash_le : b.cash.toRat ≤ c
  shares_le : b.ledger.shareCount ≤ 10 ^ 20

variable {b b' : Broker} {asset : String} {side : OutcomeSide} {fill : Fill} {p : Position} {limit : Option Decimal}
  {quote dollars available price outcome peak equity n : Decimal} {c : ℚ}

section Prices

theorem exists_buyPrice (hv : b.config.Valid) (side : OutcomeSide) (hq : FairOutcome quote) :
    ∃ price, b.buyPrice side quote = .ok price ∧ b.config.spreadPenalty.min maxExecutionPrice ≤ price := by
  obtain ⟨quoted, hquoted, h0, h1⟩ := side.exists_fair_price hq
  obtain ⟨sum, hsum⟩ :=
    Decimal.exists_add_of_fractions h0 h1 hv.penalty_nonneg (Decimal.le_of_lt hv.penalty_lt_one)
  refine ⟨sum.min maxExecutionPrice, ?_, ?_⟩
  · simp only [buyPrice, OutcomeMarket.bind_eq_ok_iff, pure_eq_ok_iff]
    exact ⟨quoted, hquoted, sum, hsum, rfl⟩
  · exact Decimal.le_min (Decimal.le_trans (Decimal.min_le_left _ _) (Decimal.le_add_left h0 hsum))
      (Decimal.min_le_right _ _)

theorem exists_sellPrice (hv : b.config.Valid) (side : OutcomeSide) (hq : FairOutcome quote) :
    ∃ price, b.sellPrice side quote = .ok price ∧ FairOutcome price := by
  obtain ⟨quoted, hquoted, h0, h1⟩ := side.exists_fair_price hq
  obtain ⟨rest, hrest⟩ :=
    Decimal.exists_sub_of_fractions h0 h1 hv.penalty_nonneg (Decimal.le_of_lt hv.penalty_lt_one)
  have hprice : b.sellPrice side quote = .ok (rest.max minExecutionPrice) := by
    simp only [sellPrice, OutcomeMarket.bind_eq_ok_iff, pure_eq_ok_iff]
    exact ⟨quoted, hquoted, rest, hrest, rfl⟩
  have hone : rest ≤ .one := Decimal.le_trans (Decimal.sub_le_left hv.penalty_nonneg hrest) h1
  exact ⟨_, hprice, sellPrice_nonneg hprice, Decimal.max_le hone (by decide)⟩

theorem exists_cap (hv : b.config.Valid) (available : Decimal) : ∃ most, b.cap available = .ok most :=
  Decimal.exists_part (Decimal.le_of_lt hv.rate_pos) hv.rate_le_one

/-- Neither the profit nor the fee on it is more than what is paid out. -/
theorem exists_settlement (hv : b.config.Valid) (hp : p.Sound) (hf : FairOutcome price) :
    ∃ net fee, b.settlement p price = .ok (net, fee) ∧ .zero ≤ net ∧ net ≤ p.shares := by
  obtain ⟨gross, hg⟩ := Decimal.exists_part (a := p.shares) hf.1 hf.2
  obtain ⟨gain, hgain⟩ := Decimal.exists_sub_of_fractions hf.1 hf.2 hp.price_nonneg hp.price_le_one
  obtain ⟨profit, hprofit⟩ := Decimal.exists_mul (a := gain) (b := p.shares) (by
    rw [abs_mul, Decimal.toRat_sub_of_fractions hf.1 hf.2 hp.price_nonneg hp.price_le_one hgain]
    have hdollar := Decimal.abs_sub_le_one hf.1 hf.2 hp.price_nonneg hp.price_le_one
    exact (mul_le_of_le_one_left (abs_nonneg _) hdollar).trans (Decimal.abs_toRat_le _))
  obtain ⟨fee, hfee⟩ := Decimal.exists_part (a := profit.max .zero) hv.fee_nonneg hv.fee_le_one
  obtain ⟨hf0, hfp, hpg⟩ := fee_bounds hv hp hf.1 hg hgain hprofit hfee
  obtain ⟨net, hnet⟩ := Decimal.exists_sub_of_le hf0 (Decimal.le_trans hfp hpg)
  refine ⟨net, fee, ?_, Decimal.zero_le_sub (Decimal.le_trans hfp hpg) hnet, ?_⟩
  · simp only [settlement, OutcomeMarket.bind_eq_ok_iff, pure_eq_ok_iff]
    exact ⟨gross, hg, gain, hgain, profit, hprofit, fee, hfee, net, hnet, rfl⟩
  · exact Decimal.le_trans (Decimal.sub_le_left hf0 hnet) (Decimal.mul_le_left hp.shares_nonneg hf.2 hg)

/-- The fall from a peak is a fraction of it. -/
theorem exists_drawdown (h0 : .zero ≤ equity) (hle : equity ≤ peak) : ∃ fall, drawdown peak equity = .ok fall := by
  unfold drawdown
  by_cases hp : .zero < peak
  · obtain ⟨drop, hdrop⟩ := Decimal.exists_sub_of_le h0 hle
    obtain ⟨fall, hfall⟩ := Decimal.exists_div_of_le hp (Decimal.zero_le_sub hle hdrop) (Decimal.sub_le_left h0 hdrop)
    rw [if_pos hp]
    exact ⟨fall, OutcomeMarket.bind_eq_ok_iff.2 ⟨drop, hdrop, hfall⟩⟩
  · rw [if_neg hp]
    exact ⟨.zero, rfl⟩

end Prices

section Buys

/-- Only the quotient of the dollars by the price can keep a buy from being worked out. -/
theorem quotePlainly_eq_error_iff {f : Decimal.ArithmeticFault} (hv : b.config.Valid) (hq : FairOutcome quote)
    (available : Decimal) : b.quotePlainly side quote dollars available = .error f ↔
      f = .divisionOverflow ∧ b.Overspends side quote dollars := by
  obtain ⟨quoted, hquoted, -⟩ := exists_buyPrice hv side hq
  obtain ⟨most, hmost⟩ := exists_cap hv available
  simp only [quotePlainly, ite_pure_none_eq_error_iff, OutcomeMarket.bind_eq_error_iff, pure_ne_error, and_false,
    exists_false, or_false, not_or, Decimal.not_le, Decimal.not_lt]
  constructor
  · rintro ⟨⟨hd, hc⟩, hnone | ⟨price, hprice, h0, hdiv | ⟨desired, -, hnone | ⟨most', -, hnone⟩⟩⟩⟩
    · rw [hquoted] at hnone
      cases hnone
    · obtain ⟨rfl, hbig⟩ := (Decimal.div_eq_error_iff (Decimal.isZero_of_pos h0)).1 hdiv
      exact ⟨rfl, hd, hc, price, hprice, h0, hbig⟩
    · rw [hmost] at hnone
      cases hnone
    · obtain ⟨cost, hcost⟩ :=
        Decimal.exists_part (a := desired.min most') (Decimal.le_of_lt h0) (buyPrice_le_one hprice)
      rw [hcost] at hnone
      cases hnone
  · rintro ⟨rfl, hd, hc, price, hprice, h0, hbig⟩
    have hdiv := (Decimal.div_eq_error_iff (Decimal.isZero_of_pos h0)).2 ⟨rfl, hbig⟩
    exact ⟨⟨hd, hc⟩, .inr ⟨price, hprice, h0, .inl hdiv⟩⟩

/-- With the second look it is no different. -/
theorem quoteBuy_eq_error_iff {f : Decimal.ArithmeticFault} (hv : b.config.Valid) (hq : FairOutcome quote)
    (hd : .zero ≤ dollars) : b.quoteBuy side quote dollars available = .error f ↔
      f = .divisionOverflow ∧ b.Overspends side quote dollars := by
  rw [← quotePlainly_eq_error_iff hv hq available]
  exact (agrees_quoteBuy hd).eq_error_iff

/-- No more is bought than is on offer. -/
theorem shares_le_available (hv : b.config.Valid) (hd : .zero ≤ dollars) (ha : .zero ≤ available)
    (h : b.quoteBuy side quote dollars available = .ok (some fill)) : fill.shares ≤ available := by
  obtain ⟨_, hplain, hsame⟩ := exists_plain_of_quoteBuy hd h
  cases hsame with
  | some hsame =>
    obtain ⟨-, -, -, -, desired, most, cost, -, hmost, hshares, -, -⟩ := quotePlainly_eq_some hplain
    have hcut : desired.min most ≤ available :=
      Decimal.le_trans (Decimal.min_le_right _ _) (Decimal.mul_le_left ha hv.rate_le_one hmost)
    rw [← hshares] at hcut
    exact (Decimal.le_congr hsame.shares (.refl _)).2 hcut

/-- At a penalty above a billionth the largest ordinary amount is worth fewer shares than can be written, whatever the
quote. -/
theorem not_overspends_of_penalty (hv : b.config.Valid) (hp : .lit 13 10 ≤ b.config.spreadPenalty)
    (hq : FairOutcome quote) (hd : dollars.Ordinary) : ¬ b.Overspends side quote dollars := by
  rintro ⟨-, -, price, hprice, h0, hbig⟩
  obtain ⟨price', hprice', hle⟩ := exists_buyPrice hv side hq
  rw [hprice] at hprice'
  cases hprice'
  have hpenny : (13 : ℚ) / 10 ^ 10 ≤ price.toRat := by
    have hmin := Decimal.le_iff_toRat.1 (Decimal.le_trans (Decimal.le_min hp (by decide)) hle)
    simpa using hmin
  have hpos := Decimal.zero_lt_iff_toRat.1 h0
  apply hbig (Decimal.fits_of_abs_le _)
  rw [abs_of_nonneg (div_nonneg (Decimal.zero_le_iff_toRat.1 hd.1) hpos.le), div_le_iff₀ hpos, Decimal.cast_maxMantissa]
  linarith [hd.le]

end Buys

/-- A sale can always be worked out. -/
theorem exists_quoteSell (hv : b.config.Valid) (hq : FairOutcome quote) (asset : String) (side : OutcomeSide)
    (limit : Option Decimal) : ∃ filled, b.quoteSell asset side quote limit = .ok filled := by
  obtain ⟨price, hprice, h0, h1⟩ := exists_sellPrice hv side hq
  refine exists_of_ne_error fun f h => ?_
  simp only [quoteSell, ite_pure_none_eq_error_iff, OutcomeMarket.bind_eq_error_iff, pure_ne_error, and_false,
    exists_false, or_false, hprice, reduceCtorEq, false_or, Except.ok.injEq, exists_eq_left'] at h
  obtain ⟨-, -, hnone⟩ := h
  obtain ⟨value, hvalue⟩ := Decimal.exists_part h0 h1
  rw [hvalue] at hnone
  cases hnone

/-- What both sides paid can be added up. -/
theorem exists_addNet {total : Decimal} {r : Option Decimal} {x : ℚ} (h0 : .zero ≤ total) (hx : total.toRat ≤ x)
    (hroom : x ≤ 10 ^ 24) (hr : ∀ net, r = some net → net.Ordinary) :
    ∃ d, addNet total r = .ok d ∧ .zero ≤ d ∧ d.toRat ≤ x + (10 ^ 20 + 1) := by
  cases r with
  | none => exact ⟨total, rfl, h0, by linarith⟩
  | some net =>
    have hnet := hr net rfl
    have hnet0 := Decimal.zero_le_iff_toRat.1 hnet.1
    have htotal := Decimal.zero_le_iff_toRat.1 h0
    obtain ⟨d, hd⟩ := Decimal.exists_add (a := total) (b := net) (by
      rw [abs_of_nonneg (by linarith), Decimal.cast_maxMantissa]
      linarith [hnet.le])
    have hround := (le_abs_self _).trans (Decimal.rounds_add hd).abs_sub_le_half
    exact ⟨d, hd, Decimal.zero_le_add h0 hnet.1 hd, by linarith [hnet.le]⟩

namespace Roomy

theorem mono {c' : ℚ} (h : b.Roomy c) (hc : c ≤ c') : b.Roomy c' := ⟨h.sound, h.price, h.cash_le.trans hc, h.shares_le⟩

theorem withPrice (h : b.Roomy c) (hq : FairOutcome quote) : (b.withPrice asset quote).Roomy c :=
  ⟨h.sound.sameBooks (sameBooks_withPrice b asset quote), fair_withPrice h.price hq, h.cash_le, h.shares_le⟩

theorem shares_nonneg (h : b.Roomy c) (asset : String) (side : OutcomeSide) :
    .zero ≤ (b.position asset side).shares := (h.sound.position_sound asset side).shares_nonneg

theorem held_le (h : b.Roomy c) (asset : String) (side : OutcomeSide) :
    (b.position asset side).shares.toRat ≤ 10 ^ 20 :=
  (Ledger.shares_le_shareCount h.shares_nonneg asset side).trans h.shares_le

/-- A position that has shrunk leaves room for what it has brought in. -/
theorem rebooked (h : b.Roomy c) (hs : b'.Sound) (hp : b'.prices = b.prices)
    (hl : b'.ledger = b.ledger.set asset side p) (hle : p.shares ≤ (b.position asset side).shares) {c' : ℚ}
    (hc : b'.cash.toRat ≤ c') : b'.Roomy c' := by
  refine ⟨hs, fun other q hq => h.price other q ?_, hc, ?_⟩
  · rwa [lastKnownPrice, hp] at hq
  · have hshares := h.shares_le
    have hle : p.shares.toRat ≤ (b.ledger.get asset side).shares.toRat := Decimal.le_iff_toRat.1 hle
    rw [hl, Ledger.shareCount_set]
    linarith

/-- Cash that comes in has room, and its last digit is rounded off by less than a dollar. -/
theorem exists_credit (h : b.Roomy c) (hc : c ≤ 10 ^ 24) (h0 : .zero ≤ n) (hn : n.toRat ≤ 10 ^ 20) :
    ∃ cash, b.cash.add n = .ok cash ∧ cash.toRat ≤ c + (10 ^ 20 + 1) := by
  have hcash0 := Decimal.zero_le_iff_toRat.1 h.sound.cash_nonneg
  have hn0 := Decimal.zero_le_iff_toRat.1 h0
  have hcash := h.cash_le
  obtain ⟨cash, hadd⟩ := Decimal.exists_add (a := b.cash) (b := n) (by
    rw [abs_of_nonneg (by linarith), Decimal.cast_maxMantissa]
    linarith)
  have hround := (le_abs_self _).trans (Decimal.rounds_add hadd).abs_sub_le_half
  exact ⟨cash, hadd, by linarith⟩

theorem exists_markEquity (h : b.Roomy c) (hc : c ≤ 10 ^ 24) : ∃ n b', markEquity b = .ok n b' ∧ b'.Roomy c := by
  have hcash := h.cash_le
  have hshares := h.shares_le
  obtain ⟨n, hn, h0⟩ := (h.sound.solvent h.price).exists_value (by
    rw [Decimal.cast_maxMantissa]
    linarith)
  obtain ⟨fall, hfall⟩ := exists_drawdown h0 (Decimal.le_max_right b.peakEquity n)
  have hmark := markEquity_eq_ok_iff.2 ⟨fall, hn, hfall, rfl⟩
  exact ⟨n, _, hmark, h.sound.sameBooks (sameBooks_of_markEquity hmark), h.price, hcash, hshares⟩

/-- A sale brings in no more dollars than it sells shares. -/
theorem exists_bookSell (h : b.Roomy c) (hc : c + (10 ^ 20 + 1) ≤ 10 ^ 24) (hq : FairOutcome quote)
    (hfill : b.quoteSell asset side quote limit = .ok (some fill)) :
    ∃ b', bookSell asset side fill b = .ok () b' ∧ b'.Roomy (c + (10 ^ 20 + 1)) := by
  obtain ⟨hprice, h0, hle, hvalue⟩ := quoteSell_eq_some hfill
  obtain ⟨price, hprice', hfair⟩ := exists_sellPrice h.sound.config_valid side hq
  rw [hprice] at hprice'
  cases hprice'
  have hworth := Decimal.le_iff_toRat.1 (Decimal.mul_le_left (Decimal.le_of_lt h0) hfair.2 hvalue)
  have hheld := (Decimal.le_iff_toRat.1 hle).trans (h.held_le asset side)
  obtain ⟨cash, hcash, hcash'⟩ := h.exists_credit (by linarith) (quoteSell_value hfill) (hworth.trans hheld)
  obtain ⟨rest, hrest⟩ := Decimal.exists_sub_of_le (Decimal.le_of_lt h0) hle
  have hrest' := Decimal.sub_le_left (Decimal.le_of_lt h0) hrest
  have hsold : (b.withSale asset side fill rest cash).Roomy (c + (10 ^ 20 + 1)) :=
    h.rebooked (h.sound.credit (.sold hfill hrest hcash)) rfl rfl hrest' hcash'
  obtain ⟨equity, b', hmark, hroom⟩ := hsold.exists_markEquity hc
  exact ⟨b', bookSell_eq_ok_iff.2 ⟨rest, cash, equity, hrest, Decimal.zero_le_sub hle hrest, hcash, hmark⟩, hroom⟩

theorem exists_sell (h : b.Roomy c) (hc : c + (10 ^ 20 + 1) ≤ 10 ^ 24) (hq : FairOutcome quote) (asset : String)
    (side : OutcomeSide) (limit : Option Decimal) :
    ∃ n b', sell asset side quote limit b = .ok n b' ∧ n.Ordinary ∧ b'.Roomy (c + (10 ^ 20 + 1)) := by
  have hnoted : (b.withPrice asset quote).Roomy c := h.withPrice hq
  obtain ⟨filled, hfill⟩ := exists_quoteSell hnoted.sound.config_valid hq asset side limit
  cases filled with
  | none => exact ⟨.zero, _, sell_eq_ok_iff.2 (.inl ⟨hfill, rfl, rfl⟩), by decide, hnoted.mono (by linarith)⟩
  | some fill =>
    obtain ⟨-, h0, hle, -⟩ := quoteSell_eq_some hfill
    have hheld := (Decimal.le_iff_toRat.1 hle).trans (h.held_le asset side)
    obtain ⟨b', hbook, hroom⟩ := hnoted.exists_bookSell hc hq hfill
    refine ⟨fill.shares, b', sell_eq_ok_iff.2 (.inr ⟨fill, hfill, rfl, hbook⟩), ⟨Decimal.le_of_lt h0, ?_⟩, hroom⟩
    rwa [Decimal.le_iff_toRat, toRat_ordinarySize]

theorem exists_liquidate (h : b.Roomy c) (hc : c + 2 * (10 ^ 20 + 1) ≤ 10 ^ 24) (hq : FairOutcome quote)
    (asset : String) : ∃ n b', liquidate asset quote b = .ok n b' := by
  obtain ⟨yes, u, hyes, hy, hu⟩ := h.exists_sell (by linarith) hq asset .yes none
  obtain ⟨no, b', hno, hn, -⟩ := hu.exists_sell (by linarith) hq asset .no none
  have hy0 := Decimal.zero_le_iff_toRat.1 hy.1
  have hn0 := Decimal.zero_le_iff_toRat.1 hn.1
  obtain ⟨total, htotal⟩ := Decimal.exists_add (a := yes) (b := no) (by
    rw [abs_of_nonneg (by linarith), Decimal.cast_maxMantissa]
    linarith [hy.le, hn.le])
  refine ⟨total, b', ?_⟩
  unfold liquidate
  rw [run_bind_of_ok hyes, run_bind_of_ok hno]
  exact run_checked_eq_ok_iff.2 ⟨htotal, rfl⟩

/-- A settled side brings in no more dollars than it had shares. -/
theorem exists_resolveSide (h : b.Roomy c) (hc : c ≤ 10 ^ 24) (ho : FairOutcome outcome) (asset : String)
    (side : OutcomeSide) : ∃ r b', resolveSide asset outcome side b = .ok r b' ∧ (∀ net, r = some net → net.Ordinary) ∧
      b'.Roomy (c + (10 ^ 20 + 1)) := by
  by_cases h0 : (b.position asset side).shares ≤ .zero
  · have hnone : resolveSide asset outcome side b = .ok none b := by
      unfold resolveSide
      rw [run_get_bind, if_pos h0]
      rfl
    exact ⟨none, b, hnone, nofun, h.mono (by linarith)⟩
  rw [Decimal.not_le] at h0
  have hheld := h.held_le asset side
  obtain ⟨price, hprice, hfair⟩ := side.exists_fair_price ho
  obtain ⟨net, fee, hset, hnet0, hnet⟩ :=
    exists_settlement h.sound.config_valid (h.sound.position_sound asset side) hfair
  have hnet' := (Decimal.le_iff_toRat.1 hnet).trans hheld
  obtain ⟨cash, hcash, hcash'⟩ := h.exists_credit hc hnet0 hnet'
  refine ⟨some net, _, run_resolveSide h0 hprice hset hcash, ?_, ?_⟩
  · rintro _ ⟨⟩
    exact ⟨hnet0, by rwa [Decimal.le_iff_toRat, toRat_ordinarySize]⟩
  · have hsound := h.sound.credit (.settled ho h0 hprice hset hcash)
    exact h.rebooked hsound rfl rfl (h.shares_nonneg asset side) hcash'

theorem exists_resolve (h : b.Roomy c) (hc : c + 2 * (10 ^ 20 + 1) ≤ 10 ^ 24) (ho : FairOutcome outcome)
    (asset : String) : ∃ n b', resolve asset outcome b = .ok n b' := by
  have hnoted : (b.withPrice asset outcome).Roomy c := h.withPrice ho
  obtain ⟨yes, u, hyes, hy, hu⟩ := hnoted.exists_resolveSide (by linarith) ho asset .yes
  obtain ⟨no, v, hno, hn, hv⟩ := hu.exists_resolveSide (by linarith) ho asset .no
  have hzero : Decimal.zero.toRat ≤ 0 := by simp
  obtain ⟨total, htotal, h0, hle⟩ := exists_addNet (by decide) hzero (by norm_num) hy
  obtain ⟨n, hanswer, -, -⟩ := exists_addNet h0 hle (by norm_num) hn
  have hcounted : Roomy (c + (10 ^ 20 + 1) + (10 ^ 20 + 1)) { v with tradesExecuted := v.tradesExecuted + 1 } :=
    ⟨hv.sound.sameBooks (sameBooks_counted v), hv.price, hv.cash_le, hv.shares_le⟩
  obtain ⟨equity, b', hmark, -⟩ := hcounted.exists_markEquity (by linarith)
  unfold resolve
  rw [run_setPrice_bind, run_bind_of_ok hyes, run_checked_bind_of_ok htotal, run_bind_of_ok hno,
    run_checked_bind_of_ok hanswer]
  by_cases hs : (yes.isSome || no.isSome) = true
  · rw [if_pos hs]
    simp only [countExecuted, run_modify_bind]
    exact ⟨n, b', run_bind_eq_ok_iff.2 ⟨(), b', run_discard_eq_ok_iff.2 ⟨equity, hmark⟩, rfl⟩⟩
  · rw [if_neg hs]
    exact ⟨n, v, rfl⟩

/-- A buy that was worked out can be booked. -/
theorem exists_bookBuy (h : b.Roomy c) (asset : String) (hd : .zero ≤ dollars) (ha : available.Ordinary)
    (hfill : b.quoteBuy side quote dollars available = .ok (some fill)) :
    ∃ b', bookBuy asset side fill b = .ok () b' := by
  obtain ⟨h0, hle, hcash⟩ := quoteBuy_value hfill
  obtain ⟨-, -, -, -, hpos, -, -, -⟩ := quoteBuy_eq_some hfill
  have hshares := Decimal.le_iff_toRat.1 (shares_le_available h.sound.config_valid hd ha.1 hfill)
  have hheld := h.held_le asset side
  obtain ⟨p, hp⟩ := (h.sound.position_sound asset side).exists_bought h0 hpos hle (by
    rw [Decimal.cast_maxMantissa]
    linarith [ha.le])
  obtain ⟨cash, hsub⟩ := Decimal.exists_sub_of_le h0 hcash
  exact ⟨_, bookBuy_eq_ok_iff.2 ⟨p, cash, hp, hsub, Decimal.zero_le_sub hcash hsub, rfl⟩⟩

/-- A buy fails just when its dollars are worth more shares than can be written. -/
theorem buy_eq_error_iff {f : Fault} (h : b.Roomy c) (hq : FairOutcome quote) (hd : .zero ≤ dollars)
    (ha : available.Ordinary) : (∃ b', buy asset side quote dollars available b = .error f b') ↔
      f = .arithmetic .divisionOverflow ∧ b.Overspends side quote dollars := by
  have hnoted : (b.withPrice asset quote).Roomy c := h.withPrice hq
  have hworked : ∀ e, (b.withPrice asset quote).quoteBuy side quote dollars available = .error e ↔
      e = .divisionOverflow ∧ b.Overspends side quote dollars := fun e =>
    quoteBuy_eq_error_iff hnoted.sound.config_valid hq hd
  rw [run_buy hd ha.1]
  cases hfill : (b.withPrice asset quote).quoteBuy side quote dollars available with
  | error e =>
    obtain ⟨rfl, hover⟩ := (hworked e).1 hfill
    constructor
    · rintro ⟨b', ⟨⟩⟩
      exact ⟨rfl, hover⟩
    · rintro ⟨rfl, -⟩
      exact ⟨_, rfl⟩
  | ok filled =>
    refine iff_of_false ?_ ?_
    · rintro ⟨b', hfails⟩
      cases filled with
      | none => cases hfails
      | some fill =>
        obtain ⟨u, hbook⟩ := hnoted.exists_bookBuy asset hd ha hfill
        have hfails := run_map_eq_error_iff.1 hfails
        rw [hbook] at hfails
        cases hfails
    · rintro ⟨-, hover⟩
      have hfails := (hworked _).2 ⟨rfl, hover⟩
      rw [hfill] at hfails
      cases hfails

/-- Every other operation answers, and so does every other buy. -/
theorem exists_run {op : Operation} (h : b.Roomy (10 ^ 20)) (ho : op.Admitted) (hn : ¬ b.Overbuys op) :
    ∃ r b', op.run b = .ok r b' := by
  cases op with
  | buy asset side quote dollars available =>
    obtain ⟨hq, hd, ha⟩ := ho
    cases hb : buy asset side quote dollars available b with
    | ok n b' => exact ⟨some n, b', run_map_eq_ok_iff.2 ⟨n, hb, rfl⟩⟩
    | error f b' => exact absurd ((h.buy_eq_error_iff hq hd.1 ha).1 ⟨b', hb⟩).2 hn
  | sellAll asset side quote available =>
    obtain ⟨most, hmost⟩ := exists_cap h.sound.config_valid available
    obtain ⟨n, b', hs, -, -⟩ := h.exists_sell (by norm_num) ho.1 asset side (some most)
    exact ⟨some n, b', run_map_eq_ok_iff.2 ⟨n, (run_sellAll hmost).trans hs, rfl⟩⟩
  | liquidate asset quote =>
    obtain ⟨n, b', hl⟩ := h.exists_liquidate (by norm_num) ho asset
    exact ⟨some n, b', run_map_eq_ok_iff.2 ⟨n, hl, rfl⟩⟩
  | resolve asset outcome =>
    obtain ⟨n, b', hr⟩ := h.exists_resolve (by norm_num) ho asset
    exact ⟨some n, b', run_map_eq_ok_iff.2 ⟨n, hr, rfl⟩⟩
  | reject asset kind price =>
    have hk : ensure (kind.isRejection = true) (Fault.notRejection kind) = .ok () := ensure_eq_ok_iff.2 ho
    exact ⟨none, b.withRecord asset kind price .zero .zero .zero, run_bind_of_ok (run_lift_bind_of_ok hk)⟩
  | setClock now => exact ⟨none, _, rfl⟩
  | setPrice asset price => exact ⟨none, _, rfl⟩
  | markEquity =>
    obtain ⟨n, b', hm, -⟩ := h.exists_markEquity (by norm_num)
    exact ⟨some n, b', run_map_eq_ok_iff.2 ⟨n, hm, rfl⟩⟩

theorem run_eq_error_iff {op : Operation} {f : Fault} (h : b.Roomy (10 ^ 20)) (ho : op.Admitted) :
    (∃ b', op.run b = .error f b') ↔ f = .arithmetic .divisionOverflow ∧ b.Overbuys op := by
  by_cases hn : b.Overbuys op
  · cases op with
    | buy asset side quote dollars available =>
      obtain ⟨hq, hd, ha⟩ := ho
      exact (exists_congr fun b' => run_map_eq_error_iff).trans (h.buy_eq_error_iff hq hd.1 ha)
    | _ => exact hn.elim
  · obtain ⟨r, u, hr⟩ := h.exists_run ho hn
    refine iff_of_false ?_ fun he => hn he.2
    rintro ⟨b', he⟩
    rw [hr] at he
    cases he

end Roomy

theorem Ordinary.roomy (h : b.Ordinary) (hv : b.config.Valid) (hs : b.SoundPositions) : b.Roomy (10 ^ 20) :=
  ⟨⟨hv, h.cash.1, hs⟩, h.price, h.cash.le, toRat_ordinarySize ▸ h.shares_le⟩

theorem not_overbuys_of_penalty {op : Operation} (hv : b.config.Valid) (hp : .lit 13 10 ≤ b.config.spreadPenalty)
    (ho : op.Admitted) : ¬ b.Overbuys op := by
  cases op with
  | buy asset side quote dollars available => exact not_overspends_of_penalty hv hp ho.1 ho.2.1
  | _ => exact id

/-- Whatever has happened to an account of ordinary size, an operation at ordinary amounts answers, unless it is a buy
whose dollars are worth more shares than can be written; no other number overflows and nothing is divided by zero. At a
penalty above a billionth no buy is. -/
theorem answers_of_ordinary {config : BrokerConfig} {visiting : Visiting} {ops : List Operation} {op : Operation}
    (hv : config.validate = .ok ()) (hr : (new config visiting).runAll ops = .ok b) (hb : b.Ordinary)
    (ho : op.Admitted) :
    ((∃ r b', op.run b = .ok r b') ↔ ¬ b.Overbuys op) ∧
      (∀ f b', op.run b = .error f b' → f = .arithmetic .divisionOverflow) ∧
      (.lit 13 10 ≤ config.spreadPenalty → ¬ b.Overbuys op) := by
  obtain ⟨-, hconfig⟩ := unshorted_of_runAll hr
  have hvalid : b.config.Valid := hconfig ▸ BrokerConfig.validate_eq_ok_iff.1 hv
  have hroom : b.Roomy (10 ^ 20) := hb.roomy hvalid ((SoundPositions.new config visiting).runAll hr)
  refine ⟨⟨?_, hroom.exists_run ho⟩, fun f b' he => ((hroom.run_eq_error_iff ho).1 ⟨b', he⟩).1, fun hp =>
    not_overbuys_of_penalty hvalid (hconfig ▸ hp) ho⟩
  rintro ⟨r, b', hok⟩ hover
  obtain ⟨u, he⟩ := (hroom.run_eq_error_iff ho).2 ⟨rfl, hover⟩
  rw [hok] at he
  cases he

/-- Two sides held at ordinary prices, and all of it sold. -/
theorem answers_of_liquidation : ∃ b, (new .standard .oldestFirst).runAll
      [.buy "rain" .yes (.lit 31 2) (.lit 100 0) (.lit 1000 0), .buy "rain" .no (.lit 44 2) (.lit 33 0) (.lit 90 0)] =
        .ok b ∧ b.Ordinary ∧ (Operation.liquidate "rain" (.lit 61 2)).Admitted ∧
    ∃ r b', (Operation.liquidate "rain" (.lit 61 2)).run b = .ok r b' := by
  have hheld : ∃ b ∈ ((new .standard .oldestFirst).runAll [.buy "rain" .yes (.lit 31 2) (.lit 100 0) (.lit 1000 0),
      .buy "rain" .no (.lit 44 2) (.lit 33 0) (.lit 90 0)]).toOption, b.cash.Ordinary ∧
      b.ledger.shareCount ≤ ordinarySize.toRat ∧ ∀ e ∈ b.prices.entries, FairOutcome e.2 := by decide +kernel
  obtain ⟨b, hb, hcash, hshares, hprices⟩ := hheld
  have hr := eq_ok_of_mem_toOption hb
  have hord : b.Ordinary := ⟨hcash, hshares, fun asset p hp => hprices _ (TextMap.mem_of_lookup hp)⟩
  have hadmitted : (Operation.liquidate "rain" (.lit 61 2)).Admitted := by decide
  obtain ⟨hanswers, -, hpenalty⟩ := answers_of_ordinary rfl hr hord hadmitted
  exact ⟨b, hr, hord, hadmitted, hanswers.2 (hpenalty (by decide))⟩

/-- Without a penalty a hundred dollars at the smallest price there is are worth more shares than can be written, so
that the buy fails, although no more than a thousand shares are on offer. -/
theorem overflow_of_cheapest_buy : ¬ ∀ (config : BrokerConfig) (visiting : Visiting) (ops : List Operation) (b : Broker)
    (op : Operation), config.validate = .ok () → (new config visiting).runAll ops = .ok b → b.Ordinary →
      b.peakEquity.Ordinary → op.Admitted → ∃ r b', op.run b = .ok r b' := by
  intro h
  have hord : (new { BrokerConfig.standard with spreadPenalty := .zero } .oldestFirst).Ordinary := by
    refine ⟨by decide, by decide +kernel, fun asset p hp => ?_⟩
    cases hp
  obtain ⟨r, b', hok⟩ := h { BrokerConfig.standard with spreadPenalty := .zero } .oldestFirst [] _
    (.buy "rain" .yes (.lit 1 28) (.lit 100 0) (.lit 1000 0)) rfl rfl hord (by decide) (by decide)
  have hfails : ((Operation.buy "rain" .yes (.lit 1 28) (.lit 100 0) (.lit 1000 0)).run.run'
      (new { BrokerConfig.standard with spreadPenalty := .zero } .oldestFirst)) = none := by decide +kernel
  unfold EStateM.run' EStateM.run at hfails
  rw [hok] at hfails
  cases hfails

end Broker
end OutcomeMarket

import OutcomeMarket.Proofs.Account.Step

/-! Soundness of an account under rounded arithmetic: cash and share counts do not go below zero and entry prices
stay between nothing and a dollar. Every step keeps this, so every run does. -/
namespace OutcomeMarket

/-- A share count that is not negative and an entry price of at most a dollar, none without shares. -/
structure Position.Sound (p : Position) : Prop where
  shares_nonneg : .zero ≤ p.shares
  price_nonneg : .zero ≤ p.averagePrice
  price_le_one : p.averagePrice ≤ .one
  price_of_flat : p.isFlat = true → p.averagePrice = .zero

theorem Position.shares_le_zero_of_isFlat {p : Position} (h : p.isFlat = true) : p.shares ≤ .zero := by
  rw [Decimal.le_iff_toRat, Decimal.isZero_iff_toRat.1 h, Decimal.toRat_zero]

namespace Position.Sound

variable {p q : Position} {filled spent shares : Decimal}

theorem flat : Position.flat.Sound := ⟨by decide, by decide, by decide, fun _ => rfl⟩

theorem withShares (h : p.Sound) (hs : .zero ≤ shares) : (p.withShares shares).Sound := by
  unfold Position.withShares
  by_cases h0 : shares.isZero = true
  · have h1 : Decimal.zero ≤ .one := by decide
    rw [if_pos h0]
    exact ⟨hs, Decimal.le_refl _, h1, fun _ => rfl⟩
  · rw [if_neg h0]
    exact ⟨hs, h.price_nonneg, h.price_le_one, fun hf => absurd hf h0⟩

/-- The total cost is never more than the total count, whatever was rounded on the way. -/
theorem bought (h : p.Sound) (h0 : .zero ≤ spent) (hle : spent ≤ filled)
    (hq : p.bought filled spent = .ok q) : q.Sound := by
  have htp := Broker.shares_pos_of_bought h.shares_nonneg hq
  obtain ⟨hf, total, basis, cost, price, ht, hb, hc, hp, rfl⟩ := Broker.bought_eq_ok_iff.1 hq
  have hbn := Decimal.zero_le_mul h.shares_nonneg h.price_nonneg hb
  have hbs := Decimal.mul_le_left h.shares_nonneg h.price_le_one hb
  have hcn := Decimal.zero_le_add hbn h0 hc
  have hct := Decimal.add_le_add hbs hle hc ht
  have htn := Decimal.le_of_lt htp
  exact ⟨htn, Decimal.zero_le_div hcn htn hp, Decimal.div_le_one htp hct hp, fun hflat =>
    absurd hflat (Position.not_isFlat_of_pos htp)⟩

end Position.Sound

namespace Broker

/-- A valid configuration, no debt and sound positions. -/
structure Sound (b : Broker) : Prop where
  config_valid : b.config.Valid
  cash_nonneg : .zero ≤ b.cash
  position_sound : ∀ asset side, (b.position asset side).Sound

/-- An outcome between nothing and a dollar. -/
def FairOutcome (outcome : Decimal) : Prop := .zero ≤ outcome ∧ outcome ≤ .one

instance (outcome : Decimal) : Decidable (FairOutcome outcome) :=
  inferInstanceAs (Decidable (_ ∧ _))

variable {b b' : Broker} {asset : String} {side : OutcomeSide} {fill : Fill} {p : Position}
  {quote dollars available price outcome net fee cash : Decimal} {limit : Option Decimal}

theorem buyPrice_le_one (h : b.buyPrice side quote = .ok price) : price ≤ .one := by
  simp only [buyPrice, OutcomeMarket.bind_eq_ok_iff, pure_eq_ok_iff] at h
  obtain ⟨_, _, quoted, _, rfl⟩ := h
  exact Decimal.le_trans (Decimal.min_le_right _ _) (by decide)

theorem sellPrice_nonneg (h : b.sellPrice side quote = .ok price) : .zero ≤ price := by
  simp only [sellPrice, OutcomeMarket.bind_eq_ok_iff, pure_eq_ok_iff] at h
  obtain ⟨_, _, quoted, _, rfl⟩ := h
  exact Decimal.le_trans (by decide) (Decimal.le_max_right _ _)

/-- A buy costs something between nothing and a dollar per share, and no more than the cash. -/
theorem quoteBuy_value (h : b.quoteBuy side quote dollars available = .ok (some fill)) :
    .zero ≤ fill.value ∧ fill.value ≤ fill.shares ∧ fill.value ≤ b.cash := by
  obtain ⟨hd, hc, hp, h0, hs, worth, hw, hv⟩ := quoteBuy_eq_some h
  have hcash : .zero ≤ b.cash :=
    Decimal.le_trans (Decimal.le_trans (by decide) (Decimal.le_of_lt hd)) hc
  have hworth := Decimal.zero_le_mul (Decimal.le_of_lt hs) (Decimal.le_of_lt h0) hw
  have hle := Decimal.mul_le_left (Decimal.le_of_lt hs) (buyPrice_le_one hp) hw
  rw [hv]
  exact ⟨Decimal.le_min hworth hcash, Decimal.le_trans (Decimal.min_le_left _ _) hle, Decimal.min_le_right _ _⟩

theorem quoteSell_value (h : b.quoteSell asset side quote limit = .ok (some fill)) : .zero ≤ fill.value := by
  obtain ⟨hp, hs, _, hv⟩ := quoteSell_eq_some h
  exact Decimal.zero_le_mul (Decimal.le_of_lt hs) (sellPrice_nonneg hp) hv

theorem priceFromYes_nonneg (ho : FairOutcome outcome) (h : side.priceFromYes outcome = .ok price) :
    .zero ≤ price := by
  cases side with
  | yes =>
    cases h
    exact ho.1
  | no => exact Decimal.zero_le_sub ho.2 h

theorem priceFromYes_le_one (ho : FairOutcome outcome) (h : side.priceFromYes outcome = .ok price) :
    price ≤ .one := by
  cases side with
  | yes =>
    cases h
    exact ho.2
  | no => exact Decimal.sub_le_left ho.1 h

theorem settlement_eq_ok (h : b.settlement p price = .ok (net, fee)) : ∃ gross gain profit,
    p.shares.mul price = .ok gross ∧ price.sub p.averagePrice = .ok gain ∧ gain.mul p.shares = .ok profit ∧
      (profit.max .zero).mul b.config.resolutionFeeRate = .ok fee ∧ gross.sub fee = .ok net := by
  simp only [settlement, OutcomeMarket.bind_eq_ok_iff, pure_eq_ok_iff, Prod.mk.injEq] at h
  obtain ⟨gross, hg, gain, hgain, profit, hprofit, fee', hfee, net', hnet, rfl, rfl⟩ := h
  exact ⟨gross, gain, profit, hg, hgain, hprofit, hfee, hnet⟩

/-- The fee is part of the profit and the profit part of the gross. -/
theorem fee_bounds {gross gain profit : Decimal} (hv : b.config.Valid) (hp : p.Sound) (h0 : .zero ≤ price)
    (hg : p.shares.mul price = .ok gross) (hgain : price.sub p.averagePrice = .ok gain)
    (hprofit : gain.mul p.shares = .ok profit)
    (hfee : (profit.max .zero).mul b.config.resolutionFeeRate = .ok fee) :
    .zero ≤ fee ∧ fee ≤ profit.max .zero ∧ profit.max .zero ≤ gross := by
  have hgross := Decimal.zero_le_mul hp.shares_nonneg h0 hg
  have hgp := Decimal.sub_le_left hp.price_nonneg hgain
  have hpg : profit ≤ gross := by
    refine Decimal.mul_mono ?_ hprofit hg
    rw [mul_comm]
    exact mul_le_mul_of_nonneg_left (Decimal.le_iff_toRat.1 hgp) (Decimal.zero_le_iff_toRat.1 hp.shares_nonneg)
  have hmax := Decimal.le_max_right profit .zero
  exact ⟨Decimal.zero_le_mul hmax hv.fee_nonneg hfee, Decimal.mul_le_left hmax hv.fee_le_one hfee,
    Decimal.max_le hpg hgross⟩

/-- The fee leaves a net that is never a debt. -/
theorem settlement_nonneg (hv : b.config.Valid) (hp : p.Sound) (h0 : .zero ≤ price)
    (h : b.settlement p price = .ok (net, fee)) : .zero ≤ net := by
  obtain ⟨gross, gain, profit, hg, hgain, hprofit, hfee, hnet⟩ := settlement_eq_ok h
  obtain ⟨-, hle, hmax⟩ := fee_bounds hv hp h0 hg hgain hprofit hfee
  exact Decimal.zero_le_sub (Decimal.le_trans hle hmax) hnet

/-- All positions are sound, whatever the cash. -/
def SoundPositions (b : Broker) : Prop := ∀ asset side, (b.position asset side).Sound

namespace SoundPositions

variable {admits : Decimal → Prop}

theorem new (config : BrokerConfig) (visiting : Visiting) : (Broker.new config visiting).SoundPositions := by
  intro asset side
  rw [position_new]
  exact .flat

theorem sameLedger (h : b.SoundPositions) (hl : b'.ledger = b.ledger) : b'.SoundPositions := by
  intro asset side
  unfold position
  rw [hl]
  exact h asset side

theorem set (h : b.SoundPositions) (hp : p.Sound) (hl : b'.ledger = b.ledger.set asset side p) :
    b'.SoundPositions := by
  intro other t
  rw [position_of_set hl]
  split
  · exact hp
  · exact h other t

theorem purchase (h : b.SoundPositions) (hp : Purchase b b') : b'.SoundPositions := by
  obtain ⟨hq, hp, -⟩ := hp
  obtain ⟨h0, hle, -⟩ := quoteBuy_value hq
  exact h.set ((h _ _).bought h0 hle hp) rfl

theorem credit (h : b.SoundPositions) (hc : Credit admits b b') : b'.SoundPositions := by
  cases hc with
  | noted hb => exact h.sameLedger hb.ledger
  | sold hq hr hc =>
    obtain ⟨-, -, hle, -⟩ := quoteSell_eq_some hq
    exact h.set ((h _ _).withShares (Decimal.zero_le_sub hle hr)) rfl
  | settled ha h0 hp hs hc => exact h.set .flat rfl
  | refused hk => exact h.sameLedger rfl

theorem moves (h : b.SoundPositions) (hm : Moves admits b b') : b'.SoundPositions := by
  cases hm with
  | purchase hb hp => exact (h.sameLedger hb.ledger).purchase hp
  | credits hc =>
    induction hc with
    | refl => exact h
    | tail _ hc ih => exact ih.credit hc

theorem run {op : Operation} {r : Option Decimal} (h : b.SoundPositions) (hr : op.run b = .ok r b') :
    b'.SoundPositions := h.moves (moves_of_run op.settlesWithin_true hr)

/-- A market may be settled at any outcome; that touches no position but to close it. -/
theorem runAll {ops : List Operation} (h : b.SoundPositions) (hr : b.runAll ops = .ok b') : b'.SoundPositions := by
  refine runAll_induction (motive := fun b _ b' => b.SoundPositions → b'.SoundPositions) ?_ ?_ hr h
  · exact fun b h => h
  · exact fun b op ops r u b' hu _ ih h => ih (h.run hu)

end SoundPositions

namespace Sound

theorem new {config : BrokerConfig} (hv : config.Valid) (visiting : Visiting) : (Broker.new config visiting).Sound :=
  ⟨hv, hv.cash_nonneg, SoundPositions.new config visiting⟩

theorem set (h : b.Sound) (hp : p.Sound) (hv : b'.config = b.config)
    (hl : b'.ledger = b.ledger.set asset side p) (hc : .zero ≤ b'.cash) : b'.Sound :=
  ⟨hv ▸ h.config_valid, hc, SoundPositions.set h.position_sound hp hl⟩

theorem sameBooks (h : b.Sound) (hb : b.SameBooks b') : b'.Sound :=
  ⟨hb.config ▸ h.config_valid, hb.cash ▸ h.cash_nonneg, SoundPositions.sameLedger h.position_sound hb.ledger⟩

theorem purchase (h : b.Sound) (hp : Purchase b b') : b'.Sound := by
  have hpos := SoundPositions.purchase h.position_sound hp
  obtain ⟨hq, -, hc⟩ := hp
  obtain ⟨-, -, hcash⟩ := quoteBuy_value hq
  exact ⟨h.config_valid, Decimal.zero_le_sub hcash hc, hpos⟩

theorem credit (h : b.Sound) (hc : Credit FairOutcome b b') : b'.Sound := by
  have hpos := SoundPositions.credit h.position_sound hc
  cases hc with
  | noted hb => exact h.sameBooks hb
  | sold hq hr hc => exact ⟨h.config_valid, Decimal.zero_le_add h.cash_nonneg (quoteSell_value hq) hc, hpos⟩
  | settled ha _ hp hs hc =>
    have hnet := settlement_nonneg h.config_valid (h.position_sound _ _) (priceFromYes_nonneg ha hp) hs
    exact ⟨h.config_valid, Decimal.zero_le_add h.cash_nonneg hnet hc, hpos⟩
  | refused => exact ⟨h.config_valid, h.cash_nonneg, hpos⟩

theorem credits (h : b.Sound) (hc : Credits FairOutcome b b') : b'.Sound := by
  induction hc with
  | refl => exact h
  | tail _ hc ih => exact ih.credit hc

theorem moves (h : b.Sound) (hm : Moves FairOutcome b b') : b'.Sound := by
  cases hm with
  | purchase hb hp => exact (h.sameBooks hb).purchase hp
  | credits hc => exact h.credits hc

/-- Every run keeps an account sound. -/
theorem runAll {ops : List Operation} (h : b.Sound) (ho : ∀ op ∈ ops, op.SettlesWithin FairOutcome)
    (hr : b.runAll ops = .ok b') : b'.Sound := by
  refine runAll_induction (motive := fun b ops b' => b.Sound →
    (∀ op ∈ ops, op.SettlesWithin FairOutcome) → b'.Sound) ?_ ?_ hr h ho
  · exact fun b h _ => h
  · intro b op ops r u b' hu _ ih h ho
    have hm := moves_of_run (ho op List.mem_cons_self) hu
    exact ih (h.moves hm) fun op hop => ho op (List.mem_cons_of_mem _ hop)

end Sound
end Broker

namespace Operation

/-- What the caller owes: no negative dollars or shares on offer, and only rejections noted as rejections. -/
def WellFormed : Operation → Prop
  | buy _ _ _ dollars available => .zero ≤ dollars ∧ .zero ≤ available
  | reject _ kind _ => kind.isRejection = true
  | _ => True

/-- Whatever the account, an operation whose caller keeps the rules can only fault on a number out of range. -/
theorem run_eq_error {op : Operation} {b b' : Broker} {f : Fault} (hw : op.WellFormed)
    (h : op.run b = .error f b') : ∃ c, f = .arithmetic c := by
  cases op with
  | buy asset side quote dollars available => exact Broker.buy_eq_error hw.1 hw.2 (run_map_eq_error_iff.1 h)
  | sellAll asset side quote available => exact Broker.sellAll_eq_error (run_map_eq_error_iff.1 h)
  | liquidate asset quote => exact Broker.liquidate_eq_error (run_map_eq_error_iff.1 h)
  | resolve asset outcome => exact Broker.resolve_eq_error (run_map_eq_error_iff.1 h)
  | reject asset kind price =>
    obtain h | ⟨_, _, _, h⟩ := run_bind_eq_error_iff.1 h
    · have hn := Broker.reject_eq_error h
      exact absurd hw (by simp [WellFormed, hn])
    · exact absurd h run_pure_ne_error
  | setClock now => exact absurd h run_pure_ne_error
  | setPrice asset price => exact absurd h run_pure_ne_error
  | markEquity => exact Broker.markEquity_eq_error (run_map_eq_error_iff.1 h)

end Operation

namespace Broker

/-- An account with a valid configuration is sound after every run, and then no operation can go below zero in
cash or shares or buy nothing: it succeeds or a number leaves its range. -/
theorem sound_of_runAll {config : BrokerConfig} {visiting : Visiting} {ops : List Operation} {b : Broker}
    (hv : config.validate = .ok ()) (ho : ∀ op ∈ ops, op.SettlesWithin FairOutcome)
    (hr : (new config visiting).runAll ops = .ok b) :
    b.Sound ∧ ∀ op : Operation, op.WellFormed →
      ∀ f b', op.run b = .error f b' → ∃ c, f = .arithmetic c := by
  have hs := Sound.new (BrokerConfig.validate_eq_ok_iff.1 hv) visiting
  exact ⟨hs.runAll ho hr, fun op hw f b' h => Operation.run_eq_error hw h⟩

/-- Both sides bought, one sold in part, the market settled. -/
theorem sound_after_settlement : ∃ b, (new .standard .oldestFirst).runAll
      [.buy "rain" .yes (.lit 50 2) (.lit 100 0) (.lit 1000 0), .buy "rain" .no (.lit 50 2) (.lit 33 0) (.lit 90 0),
        .sellAll "rain" .yes (.lit 61 2) (.lit 7 0), .resolve "rain" .one] = .ok b ∧
    b.Sound ∧ ∀ op : Operation, op.WellFormed →
      ∀ f b', op.run b = .error f b' → ∃ c, f = .arithmetic c := by
  obtain ⟨b, hb⟩ := exists_of_isOk (x := (new .standard .oldestFirst).runAll
    [.buy "rain" .yes (.lit 50 2) (.lit 100 0) (.lit 1000 0), .buy "rain" .no (.lit 50 2) (.lit 33 0) (.lit 90 0),
      .sellAll "rain" .yes (.lit 61 2) (.lit 7 0), .resolve "rain" .one]) (by decide +kernel)
  exact ⟨b, hb, sound_of_runAll rfl (by decide) hb⟩

end Broker
end OutcomeMarket

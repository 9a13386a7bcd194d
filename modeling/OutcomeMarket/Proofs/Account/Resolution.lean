import OutcomeMarket.Proofs.Account.Closing

/-! How a market is settled. Each side that is held is paid out in one record, at its price, less a fee that is taken
from the profit and never, but for the last digits, from what the shares cost. Then both sides are empty, and to settle
the market again does nothing. -/
namespace OutcomeMarket

namespace Decimal

variable {x c : ℚ} {gross profit fee net : Decimal}

/-- What remains of a gross after a fee on the profit is no less than the cost, up to three roundings. -/
theorem principal_le_net (hg : Rounds x gross) (hp : Rounds (x - c) profit)
    (hn : Rounds (gross.toRat - fee.toRat) net) (hf : fee ≤ profit.max zero) (hpg : profit.max zero ≤ gross)
    (h0 : zero ≤ net) (hle : net ≤ gross) :
    Min.min gross.toRat c - 1 / 10 ^ 27 * Max.max 1 gross.toRat ≤ net.toRat := by
  rw [le_iff_toRat, toRat_max, toRat_zero] at hf hpg
  rw [le_iff_toRat] at hle
  rw [zero_le_iff_toRat] at h0
  have hG := (abs_le.1 (hg.abs_sub_le_of_le (h0.trans hle) le_rfl)).1
  have hN := (abs_le.1 (hn.abs_sub_le_of_le h0 hle)).1
  have hM : (1 : ℚ) ≤ Max.max 1 gross.toRat := le_sup_left
  by_cases hpos : 0 ≤ profit.toRat
  · rw [sup_eq_left.2 hpos] at hf hpg
    have hP := (abs_le.1 (hp.abs_sub_le_of_le hpos hpg)).2
    have hcost := inf_le_right (a := gross.toRat) (b := c)
    linarith
  · rw [sup_eq_right.2 (lt_of_not_ge hpos).le] at hf
    have hgross := inf_le_left (a := gross.toRat) (b := c)
    linarith

end Decimal

/-- A payout of a position at a price, gross and net of a fee. The fee is taken from a profit, not from what the shares
cost. -/
structure Position.FairPayout (p : Position) (price gross fee net : Decimal) : Prop where
  gross_eq : p.shares.mul price = .ok gross
  net_eq : gross.sub fee = .ok net
  fee_nonneg : .zero ≤ fee
  fee_of_no_gain : price ≤ p.averagePrice → fee.isZero = true
  net_nonneg : .zero ≤ net
  net_le : net ≤ gross
  principal_le : min gross.toRat (p.shares.toRat * p.averagePrice.toRat) - 1 / 10 ^ 27 * max 1 gross.toRat ≤
    net.toRat

namespace Broker

/-- Those sides of an asset, out of some, that have shares. -/
def heldAmong (b : Broker) (asset : String) (sides : List OutcomeSide) : List OutcomeSide :=
  sides.filter fun side => .zero < (b.position asset side).shares

/-- The record of a side that is paid out at its price. -/
structure PaysOut (b : Broker) (asset : String) (outcome : Decimal) (side : OutcomeSide) (t : Trade) : Prop where
  asset_eq : t.asset = asset
  time_eq : t.time = b.clock
  kind_eq : t.kind = .resolveOf side
  price_eq : side.priceFromYes outcome = .ok t.price
  shares_eq : t.shares = (b.position asset side).shares
  fair : ∃ gross, (b.position asset side).FairPayout t.price gross t.fee t.value

/-- What a settlement does: it pays out each side that is held, YES before NO, and answers the sum; it empties both
sides, touches no other holding, counts as one trade if anything was held and never as an action. To settle the market
again at any outcome pays nothing and notes that outcome. -/
structure SettlesOnce (asset : String) (outcome answer : Decimal) (b b' : Broker) : Prop where
  paid : ∃ ts, b'.trades = b.trades ++ ts ∧
    List.Forall₂ (b.PaysOut asset outcome) (b.heldAmong asset [.yes, .no]) ts ∧
    Decimal.sum (ts.map (·.value)) = .ok answer
  flat : b'.Flat asset
  other_position : ∀ other, other ≠ asset → ∀ side, b'.position other side = b.position other side
  executed : b'.tradesExecuted = b.tradesExecuted + if b.Holds asset then 1 else 0
  actions : b'.actions = b.actions
  again : ∀ outcome', resolve asset outcome' b' = .ok .zero (b'.withPrice asset outcome')

variable {b b' u : Broker} {asset : String} {side : OutcomeSide} {p : Position}
  {outcome price net fee n : Decimal} {r : Option Decimal}

theorem fairPayout_of_settlement (hv : b.config.Valid) (hp : p.Sound) (h0 : .zero ≤ price) (h1 : price ≤ .one)
    (h : b.settlement p price = .ok (net, fee)) : ∃ gross, p.FairPayout price gross fee net := by
  obtain ⟨gross, gain, profit, hg, hgain, hprofit, hfee, hnet⟩ := settlement_eq_ok h
  obtain ⟨hf0, hfp, hpg⟩ := fee_bounds hv hp h0 hg hgain hprofit hfee
  have hn0 : .zero ≤ net := Decimal.zero_le_sub (Decimal.le_trans hfp hpg) hnet
  have hng : net ≤ gross := Decimal.sub_le_left hf0 hnet
  -- prices are fractions of a dollar, so the gain on a share is exact
  have hexact : gain.toRat = price.toRat - p.averagePrice.toRat :=
    Decimal.toRat_sub_of_fractions h0 h1 hp.price_nonneg hp.price_le_one hgain
  have hround := Decimal.rounds_mul hprofit
  rw [hexact] at hround
  refine ⟨gross, hg, hnet, hf0, fun hle => ?_, hn0, hng, ?_⟩
  · rw [Decimal.le_iff_toRat] at hle
    have hloss : (price.toRat - p.averagePrice.toRat) * p.shares.toRat ≤ Decimal.zero.toRat := by
      rw [Decimal.toRat_zero]
      exact mul_nonpos_of_nonpos_of_nonneg (sub_nonpos.2 hle) (Decimal.zero_le_iff_toRat.1 hp.shares_nonneg)
    have hprofit0 : profit ≤ .zero := Decimal.le_iff_toRat.2 (hround.le_of_le hloss)
    have hfee0 : fee ≤ .zero := Decimal.le_trans hfp (Decimal.max_le hprofit0 (Decimal.le_refl _))
    exact Decimal.isZero_of_le_zero hf0 hfee0
  · rw [sub_mul, mul_comm price.toRat, mul_comm p.averagePrice.toRat] at hround
    exact Decimal.principal_le_net (Decimal.rounds_mul hg) hround (Decimal.rounds_sub hnet) hfp hpg hn0 hng

theorem heldAmong_cons (b : Broker) (asset : String) (side : OutcomeSide) (sides : List OutcomeSide) :
    b.heldAmong asset (side :: sides) = b.heldAmong asset [side] ++ b.heldAmong asset sides := by
  unfold heldAmong
  exact List.filter_append [side] sides

theorem heldAmong_single (hp : .zero < (b.position asset side).shares) : b.heldAmong asset [side] = [side] := by
  simp [heldAmong, hp]

theorem heldAmong_single_of_empty (hp : (b.position asset side).shares ≤ .zero) : b.heldAmong asset [side] = [] := by
  simp [heldAmong, Decimal.not_lt.2 hp]

/-- A side is paid out if it is held, by what an account held of it at the same time before the other side was
settled. -/
theorem paysOut_of_resolveSide (hv : b.config.Valid) (hs : (u.position asset side).Sound)
    (hp : b.position asset side = u.position asset side) (hc : b.clock = u.clock) (ho : FairOutcome outcome)
    (h : resolveSide asset outcome side b = .ok r b') : ∃ ts, b'.trades = b.trades ++ ts ∧
      List.Forall₂ (u.PaysOut asset outcome) (u.heldAmong asset [side]) ts ∧
      ∀ total, addNet total r = (ts.map (·.value)).foldlM Decimal.add total := by
  obtain ⟨hle, rfl, rfl⟩ | ⟨price, net, fee, cash, h0, hprice, hset, -, rfl, rfl⟩ := resolveSide_eq_ok h
  · rw [hp] at hle
    rw [heldAmong_single_of_empty hle]
    exact ⟨[], (List.append_nil _).symm, .nil, fun total => rfl⟩
  · rw [hp] at h0 hset
    have hfair := fairPayout_of_settlement hv hs (priceFromYes_nonneg ho hprice) (priceFromYes_le_one ho hprice) hset
    rw [heldAmong_single h0]
    refine ⟨[_], rfl, .cons ⟨rfl, hc, rfl, hprice, congrArg Position.shares hp, hfair⟩ .nil, fun total => ?_⟩
    exact (bind_pure (total.add net)).symm

theorem counters_of_resolveSide (h : resolveSide asset outcome side b = .ok r b') :
    b'.tradesExecuted = b.tradesExecuted ∧ b'.actions = b.actions := by
  obtain ⟨-, -, rfl⟩ | ⟨price, net, fee, cash, -, -, -, -, -, rfl⟩ := resolveSide_eq_ok h <;> exact ⟨rfl, rfl⟩

theorem resolveSide_of_flat (h : (b.position asset side).isFlat = true) :
    resolveSide asset outcome side b = .ok none b := by
  have h0 := Position.shares_le_zero_of_isFlat h
  unfold resolveSide
  rw [run_get_bind, if_pos h0]
  rfl

theorem resolve_of_flat (h : b.Flat asset) : resolve asset outcome b = .ok .zero (b.withPrice asset outcome) := by
  have hside : ∀ side, resolveSide asset outcome side (b.withPrice asset outcome) =
      .ok none (b.withPrice asset outcome) := fun side => resolveSide_of_flat (h side)
  have hnone : addNet .zero none = .ok .zero := rfl
  unfold resolve
  rw [run_setPrice_bind, run_bind_of_ok (hside .yes), run_checked_bind_of_ok hnone, run_bind_of_ok (hside .no),
    run_checked_bind_of_ok hnone]
  rfl

/-- When both sides are done, the count of executed trades and the extremes may still be written. -/
theorem counted_of_settled {yes no : Option Decimal} (h : (yes = none ∧ no = none ∧ b' = u) ∨
      ((yes.isSome ∨ no.isSome) ∧
        ∃ equity, markEquity { u with tradesExecuted := u.tradesExecuted + 1 } = .ok equity b')) :
    u.SameBooks b' ∧ b'.tradesExecuted = u.tradesExecuted + if yes.isSome ∨ no.isSome then 1 else 0 := by
  obtain ⟨rfl, rfl, rfl⟩ | ⟨hs, equity, hm⟩ := h
  · exact ⟨.refl b', rfl⟩
  · rw [if_pos hs]
    exact ⟨(sameBooks_counted u).trans (sameBooks_of_markEquity hm), tradesExecuted_of_markEquity hm⟩

/-- A settlement pays out either side by what is held before it, and counts if there was anything to pay. -/
theorem paid_of_resolve (hv : b.config.Valid) (hs : b.SoundPositions) (ho : FairOutcome outcome)
    (h : resolve asset outcome b = .ok n b') :
    (∃ ts, b'.trades = b.trades ++ ts ∧
      List.Forall₂ (b.PaysOut asset outcome) (b.heldAmong asset [.yes, .no]) ts ∧
      Decimal.sum (ts.map (·.value)) = .ok n) ∧
    b'.tradesExecuted = b.tradesExecuted + (if b.Holds asset then 1 else 0) ∧ b'.actions = b.actions := by
  obtain ⟨yes, u, total, no, v, hy, htotal, hn, hanswer, hb⟩ := total_of_resolve h
  -- the first side leaves the second, the clock and the configuration as they were
  have hframe : Frame (· = asset) (fun _ => True) (b.withPrice asset outcome) u := frame_of_resolveSide rfl hy
  obtain ⟨hyes, -, hkept⟩ := resolveSide_frame hy
  obtain ⟨hno, -, -⟩ := resolveSide_frame hn
  have hkept : u.position asset .no = b.position asset .no := hkept
  have hyes : yes.isSome ↔ .zero < (b.position asset .yes).shares := hyes
  rw [hkept] at hno
  have hv : (b.withPrice asset outcome).config.Valid := hv
  obtain ⟨ts, ht, hpaid, hsum⟩ := paysOut_of_resolveSide (u := b) hv (hs asset .yes) rfl rfl ho hy
  obtain ⟨ts', ht', hpaid', hsum'⟩ :=
    paysOut_of_resolveSide (hframe.config ▸ hv) (hs asset .no) hkept hframe.clock ho hn
  obtain ⟨hexecuted, hactions⟩ := counters_of_resolveSide hy
  obtain ⟨hexecuted', hactions'⟩ := counters_of_resolveSide hn
  obtain ⟨hbooks, hcount⟩ := counted_of_settled hb
  refine ⟨⟨ts ++ ts', ?_, ?_, ?_⟩, ?_, ?_⟩
  · rw [hbooks.trades, ht', ht]
    exact List.append_assoc b.trades ts ts'
  · rw [heldAmong_cons]
    exact List.rel_append hpaid hpaid'
  · rw [Decimal.sum, List.map_append, List.foldlM_append, ← hsum, htotal, ← hanswer, hsum']
    rfl
  · have hheld : (yes.isSome ∨ no.isSome) ↔ b.Holds asset := or_congr hyes hno
    rw [hcount, hexecuted', hexecuted]
    exact congrArg (b.tradesExecuted + ·) (if_congr hheld rfl rfl)
  · rw [hbooks.actions, hactions', hactions]
    rfl

/-- Whatever has happened to an account, a settlement at a fair outcome does all that it should, once. -/
theorem settlesOnce_of_resolve {config : BrokerConfig} {visiting : Visiting} {ops : List Operation}
    (hv : config.validate = .ok ()) (hr : (new config visiting).runAll ops = .ok b)
    (ho : FairOutcome outcome) (h : resolve asset outcome b = .ok n b') :
    b.SettlesOnce asset outcome n b' := by
  obtain ⟨hkept, hconfig⟩ := unshorted_of_runAll hr
  have hvalid : b.config.Valid := hconfig ▸ BrokerConfig.validate_eq_ok_iff.1 hv
  obtain ⟨hpaid, hexecuted, hactions⟩ := paid_of_resolve hvalid ((SoundPositions.new config visiting).runAll hr) ho h
  have hflat : b'.Flat asset := flat_of_resolve (hkept (unshorted_new config visiting)) h
  have hframe : Frame (· = asset) (fun _ => True) b b' := frame_of_resolve rfl trivial h
  exact ⟨hpaid, hflat, hframe.position, hexecuted, hactions, fun outcome' => resolve_of_flat hflat⟩

/-- Both sides are held; YES is settled at a profit and NO at a loss. -/
theorem settlesOnce_of_two_sides : ∃ (b b' : Broker) (n : Decimal), (new .standard .oldestFirst).runAll
      [.buy "rain" .yes (.lit 31 2) (.lit 100 0) (.lit 1000 0), .buy "rain" .no (.lit 44 2) (.lit 33 0) (.lit 90 0)] =
        .ok b ∧
    FairOutcome (.lit 7 1) ∧ resolve "rain" (.lit 7 1) b = .ok n b' ∧ .zero < n ∧
    b.SettlesOnce "rain" (.lit 7 1) n b' := by
  have hpays : ∃ b ∈ ((new .standard .oldestFirst).runAll [.buy "rain" .yes (.lit 31 2) (.lit 100 0) (.lit 1000 0),
      .buy "rain" .no (.lit 44 2) (.lit 33 0) (.lit 90 0)]).toOption,
      ∃ n ∈ (resolve "rain" (.lit 7 1)).run' b, Decimal.zero < n := by decide +kernel
  obtain ⟨b, hb, n, hn, h0⟩ := hpays
  have hb := eq_ok_of_mem_toOption hb
  have hn := eq_ok_of_mem_run' hn
  have hfair : FairOutcome (.lit 7 1) := by decide
  exact ⟨b, _, n, hb, hfair, hn, h0, settlesOnce_of_resolve rfl hb hfair hn⟩

end Broker
end OutcomeMarket

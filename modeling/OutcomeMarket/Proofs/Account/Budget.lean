import OutcomeMarket.Proofs.Account.Affordable

/-! What a buy spends. The shares are a rounded quotient of the dollars by the price, and their cost is a rounded
product. Multiplied out again, a quotient is off from the dividend by little, in either direction; so a buy spends
hardly more than it was given, and where the cap leaves room, hardly less. -/
namespace OutcomeMarket

/-- How far roundings may carry the spending away from so many dollars. -/
def spendingSlack (dollars : ℚ) : ℚ := 1 / 10 ^ 27 * max 1 dollars

theorem spendingSlack_nonneg (dollars : ℚ) : 0 ≤ spendingSlack dollars := by
  unfold spendingSlack
  positivity

theorem two_roundings_le_slack (dollars : ℚ) : 2 / 10 ^ 28 * max 1 dollars ≤ spendingSlack dollars := by
  have hunits : (2 : ℚ) / 10 ^ 28 ≤ 1 / 10 ^ 27 := by norm_num
  exact mul_le_mul_of_nonneg_right hunits (by positivity)

namespace Broker

/-- What a buy on record takes out of the cash: no more than is there and hardly more than the dollars that it was
given; and hardly less, if the cap leaves room for all the shares that they pay for. -/
structure KeepsBudget (b : Broker) (dollars available : Decimal) (t : Trade) : Prop where
  le_cash : t.value ≤ b.cash
  le_dollars : t.value.toRat ≤ dollars.toRat + spendingSlack dollars.toRat
  spends_all : ∃ desired most, dollars.div t.price = .ok desired ∧ b.cap available = .ok most ∧
    (desired ≤ most → dollars.toRat - spendingSlack dollars.toRat ≤ t.value.toRat)

variable {b b' : Broker} {asset : String} {side : OutcomeSide} {quote dollars available n : Decimal} {fill : Fill}

theorem keepsBudget_of_quoteBuy (hd : .zero ≤ dollars)
    (h : b.quoteBuy side quote dollars available = .ok (some fill)) (t : Trade) (hp : t.price = fill.price)
    (hv : t.value = fill.value) : b.KeepsBudget dollars available t := by
  obtain ⟨-, -, hprice, -⟩ := quoteBuy_eq_some h
  obtain ⟨_, hplain, ⟨-, -, hvalue⟩⟩ := exists_plain_of_quoteBuy hd h
  obtain ⟨-, hcash, hprice', hp0, desired, most, cost, hq, hmost, hshares, hcost, hv'⟩ := quotePlainly_eq_some hplain
  rw [hprice] at hprice'
  injection hprice' with hprice'
  rw [← hprice'] at hq hcost hp0
  have hp1 := buyPrice_le_one hprice
  have hspent : t.value.toRat = min cost.toRat b.cash.toRat := by
    rw [hv, hvalue.toRat_eq, hv', Decimal.toRat_min]
  have hslack := two_roundings_le_slack dollars.toRat
  refine ⟨?_, ?_, desired, most, by rw [hp]; exact hq, hmost, fun hroom => ?_⟩
  · rw [Decimal.le_iff_toRat, hspent]
    exact min_le_right _ _
  · rw [hshares] at hcost
    have hover := Decimal.mul_le_of_le_div hd hp0 hp1 hq (Decimal.min_le_left desired most) hcost
    rw [hspent]
    exact (min_le_left _ _).trans (hover.trans (by linarith))
  · have hall : desired.min most = desired := if_neg (Decimal.not_lt.2 hroom)
    rw [hshares, hall] at hcost
    have hunder := Decimal.le_mul_div hd hp0 hp1 hq hcost
    have hpos := spendingSlack_nonneg dollars.toRat
    rw [Decimal.le_iff_toRat] at hcash
    rw [hspent]
    exact le_min (by linarith) (by linarith)

/-- A buy that fills takes the value on its record out of the cash, and keeps to its budget: whatever the account and
its prices are, and on either side. -/
theorem keepsBudget_of_buy (h : buy asset side quote dollars available b = .ok n b') (h0 : .zero < n) :
    ∃ t, b'.trades = b.trades ++ [t] ∧ t.asset = asset ∧ t.kind = .buyOf side ∧ t.shares = n ∧
      b.cash.sub t.value = .ok b'.cash ∧ b.KeepsBudget dollars available t := by
  have hd := (buy_eq_ok_iff.1 h).1
  obtain ⟨rfl, -⟩ | ⟨fill, rfl, hq, hb⟩ := filled_of_buy h
  · exact absurd h0 (by decide)
  · obtain ⟨p, cash, -, hcash, -, rfl⟩ := bookBuy_eq_ok_iff.1 hb
    obtain ⟨hle, hover, hall⟩ := keepsBudget_of_quoteBuy (b := b.withPrice asset quote) hd hq
      ⟨asset, b.clock, .buyOf side, fill.price, fill.shares, fill.value, .zero⟩ rfl rfl
    exact ⟨_, rfl, rfl, rfl, rfl, hcash, hle, hover, hall⟩

/-- Shares for 790 dollars that cost a last digit more, and the account has it. -/
theorem keepsBudget_above_dollars :
    let b := new { BrokerConfig.standard with spreadPenalty := .zero } .oldestFirst
    ∃ n b' t, buy "rain" .yes (.lit 97 2) (.lit 790 0) (.lit 1000 0) b = .ok n b' ∧ .zero < n ∧
      b'.trades = b.trades ++ [t] ∧ t.asset = "rain" ∧ t.kind = .buyOf .yes ∧ t.shares = n ∧
      b.cash.sub t.value = .ok b'.cash ∧ b.KeepsBudget (.lit 790 0) (.lit 1000 0) t ∧ .lit 790 0 < t.value := by
  intro b
  have hfill : ∃ n ∈ (buy "rain" .yes (.lit 97 2) (.lit 790 0) (.lit 1000 0)).run' b, Decimal.zero < n ∧
      (after (buy "rain" .yes (.lit 97 2) (.lit 790 0) (.lit 1000 0)) b).trades.map (·.value) =
        [.lit 79000000000000000000000000002 26] := by decide +kernel
  obtain ⟨n, hn, h0, hvalue⟩ := hfill
  have hb := eq_ok_of_mem_run' hn
  obtain ⟨t, ht, hasset, hkind, hshares, hcash, hkeeps⟩ := keepsBudget_of_buy hb h0
  rw [ht] at hvalue
  have hspent : t.value = .lit 79000000000000000000000000002 26 := by simpa [b, new] using hvalue
  refine ⟨n, _, t, hb, h0, ht, hasset, hkind, hshares, hcash, hkeeps, ?_⟩
  rw [hspent]
  decide

end Broker
end OutcomeMarket

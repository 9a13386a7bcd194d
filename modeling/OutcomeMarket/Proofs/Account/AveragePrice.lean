import OutcomeMarket.Proofs.Account.Soundness

/-! The average entry price after a buy. Five roundings stand between the old average, the price of the buy and the
new average: those of the spending, the cost so far, the sum of both, the count of shares and the quotient. Each is off
by a unit in the last digit, or in the last place where a number is small. Together they move the new average out of
the range between the old one and the price by little, unless the shares are dust. -/
namespace OutcomeMarket

/-- How far roundings may move an average over so many shares. -/
def averageSlack (shares : ℚ) : ℚ := 1 / 10 ^ 27 * (1 + 1 / shares)

/-- A buy leaves the average between the old one and its price, or at its price if nothing was held. -/
structure AverageBetween (held : Position) (t : Trade) (average : Decimal) : Prop where
  ge : (if .zero < held.shares then min held.averagePrice.toRat t.price.toRat else t.price.toRat) -
    averageSlack (held.shares.toRat + t.shares.toRat) ≤ average.toRat
  le : average.toRat ≤ (if .zero < held.shares then max held.averagePrice.toRat t.price.toRat else t.price.toRat) +
    averageSlack (held.shares.toRat + t.shares.toRat)

section Weighted

variable {s f a e : ℚ}

/-- The exact average of two prices, weighted by their shares. -/
def weighted (s f a e : ℚ) : ℚ := (s * a + f * e) / (s + f)

theorem weighted_bounds (hs : 0 ≤ s) (hf : 0 < f) : min a e ≤ weighted s f a e ∧ weighted s f a e ≤ max a e := by
  have hsf : 0 < s + f := by linarith
  unfold weighted
  rw [le_div_iff₀ hsf, div_le_iff₀ hsf]
  have h1 := mul_le_mul_of_nonneg_left (min_le_left a e) hs
  have h2 := mul_le_mul_of_nonneg_left (min_le_right a e) hf.le
  have h3 := mul_le_mul_of_nonneg_left (le_max_left a e) hs
  have h4 := mul_le_mul_of_nonneg_left (le_max_right a e) hf.le
  constructor <;> linarith

theorem weighted_of_none (hf : 0 < f) : weighted 0 f a e = e := by
  unfold weighted
  rw [zero_mul, zero_add, zero_add, mul_div_cancel_left₀ _ hf.ne']

/-- A cost and a count that are nearly those of a weighted average have nearly that average as their quotient. -/
theorem abs_quotient_sub_le {n c u : ℚ} (hu : 0 ≤ u) (hs : 0 ≤ s) (hf : 0 < f) (ha : 0 ≤ a ∧ a ≤ 1)
    (he : 0 ≤ e ∧ e ≤ 1) (hsn : s ≤ n) (hfn : f ≤ n) (hn : |n - (s + f)| ≤ u * (1 + n))
    (hc : |c - (s * a + f * e)| ≤ u * (3 + 3 * n)) : |c / n - weighted s f a e| ≤ u * (4 + 8 / (s + f)) := by
  have hsf : 0 < s + f := by linarith
  have hn0 : 0 < n := hf.trans_le hfn
  obtain ⟨hlow, hhigh⟩ := weighted_bounds (a := a) (e := e) hs hf
  have hw0 : 0 ≤ weighted s f a e := (le_min ha.1 he.1).trans hlow
  have hw1 : weighted s f a e ≤ 1 := hhigh.trans (max_le ha.2 he.2)
  have hsum : s * a + f * e = weighted s f a e * (s + f) := (div_mul_cancel₀ _ hsf.ne').symm
  rw [hsum] at hc
  generalize weighted s f a e = w at *
  have hshift : |w * (n - (s + f))| ≤ u * (1 + n) := by
    rw [abs_mul, abs_of_nonneg hw0]
    exact (mul_le_of_le_one_left (abs_nonneg _) hw1).trans hn
  have htotal : |c - w * n| ≤ u * (4 + 4 * n) := by
    have hsplit : c - w * n = (c - w * (s + f)) - w * (n - (s + f)) := by ring
    rw [hsplit]
    linarith [abs_sub (c - w * (s + f)) (w * (n - (s + f)))]
  have hcount : 4 / n ≤ 8 / (s + f) := by
    rw [div_le_div_iff₀ hn0 hsf]
    linarith
  calc |c / n - w| = |c - w * n| / n := by
        rw [← abs_of_pos hn0, ← abs_div, abs_of_pos hn0, sub_div, mul_div_cancel_right₀ _ hn0.ne']
    _ ≤ u * (4 + 4 * n) / n := by gcongr
    _ = u * (4 + 4 / n) := by
      field_simp
      ring
    _ ≤ u * (4 + 8 / (s + f)) := by gcongr

theorem abs_quotient_sub (hf : 0 < f) (c : ℚ) : |c / f - e| = |c - f * e| / f := by
  rw [← abs_of_pos hf, ← abs_div, abs_of_pos hf, sub_div, mul_div_cancel_left₀ _ hf.ne']

/-- How far off a cost is, by how far off the count is. -/
theorem abs_mul_sub {p c : ℚ} (hp : p ≠ 0) : |f * p - c| = |f - c / p| * |p| := by
  rw [← abs_mul, sub_mul, div_mul_cancel₀ _ hp]

end Weighted

section Rounding

variable {x y : ℚ} {d s f a basis spent cost n average : Decimal}

/-- A rounding is off by no more than a unit, which a number above one scales up. -/
theorem Decimal.Rounds.abs_sub_le_succ (h : Rounds x d) (h0 : 0 ≤ d.toRat) (hy : d.toRat ≤ y) :
    |d.toRat - x| ≤ 1 / 10 ^ 28 * (1 + y) := by
  have hmax : Max.max 1 d.toRat ≤ 1 + y := sup_le (by linarith) (by linarith)
  have hd := h.abs_sub_le
  rw [abs_of_nonneg h0] at hd
  exact hd.trans (by gcongr)

/-- The new average is close to the exact one, if the spending is close to the worth of the shares. -/
theorem abs_average_sub_le {e : ℚ} {p q : Position} (hp : p.Sound) (he : 0 ≤ e ∧ e ≤ 1) (h0 : .zero ≤ spent)
    (hle : spent ≤ f) (hnear : |spent.toRat - f.toRat * e| ≤ 1 / 10 ^ 28 * (1 + f.toRat))
    (hq : p.bought f spent = .ok q) : |q.averagePrice.toRat - weighted p.shares.toRat f.toRat p.averagePrice.toRat e| ≤
      averageSlack (p.shares.toRat + f.toRat) := by
  have hsound := hp.bought h0 hle hq
  obtain ⟨hf, n, basis, cost, average, hn, hb, hc, hv, rfl⟩ := Broker.bought_eq_ok_iff.1 hq
  have hbasis := Decimal.mul_le_left hp.shares_nonneg hp.price_le_one hb
  have hbasis0 := Decimal.zero_le_mul hp.shares_nonneg hp.price_nonneg hb
  have hcost := Decimal.add_le_add hbasis hle hc hn
  have hcost0 := Decimal.zero_le_add hbasis0 h0 hc
  have hsn := Decimal.le_add_right (Decimal.le_of_lt hf) hn
  have hfn := Decimal.le_add_left hp.shares_nonneg hn
  obtain ⟨hs, ha0, ha1, -⟩ := hp
  obtain ⟨-, hv0, hv1, -⟩ := hsound
  rw [Decimal.zero_le_iff_toRat] at *
  rw [Decimal.zero_lt_iff_toRat] at hf
  rw [Decimal.le_one_iff_toRat] at ha1 hv1
  rw [Decimal.le_iff_toRat] at *
  have en := (Decimal.rounds_add hn).abs_sub_le_succ (hs.trans hsn) le_rfl
  have eb := (Decimal.rounds_mul hb).abs_sub_le_succ hbasis0 (hbasis.trans hsn)
  have ec := (Decimal.rounds_add hc).abs_sub_le_succ hcost0 hcost
  have ev := (Decimal.rounds_div hv).abs_sub_le_succ hv0 hv1
  have hc' : |cost.toRat - (p.shares.toRat * p.averagePrice.toRat + f.toRat * e)| ≤
      1 / 10 ^ 28 * (3 + 3 * n.toRat) := by
    have h1 := abs_sub_le cost.toRat (basis.toRat + spent.toRat)
      (p.shares.toRat * p.averagePrice.toRat + f.toRat * e)
    have h2 := abs_add_le (basis.toRat - p.shares.toRat * p.averagePrice.toRat) (spent.toRat - f.toRat * e)
    rw [sub_add_sub_comm] at h2
    linarith
  have hquot := abs_quotient_sub_le (by norm_num) hs hf ⟨ha0, ha1⟩ he hsn hfn en hc'
  have htotal := abs_sub_le average.toRat (cost.toRat / n.toRat)
    (weighted p.shares.toRat f.toRat p.averagePrice.toRat e)
  have hslack : 1 / 10 ^ 28 * (1 + 1) + 1 / 10 ^ 28 * (4 + 8 / (p.shares.toRat + f.toRat)) ≤
      averageSlack (p.shares.toRat + f.toRat) := by
    have hpos : 0 ≤ 1 / (p.shares.toRat + f.toRat) := by positivity
    have h8 : 8 / (p.shares.toRat + f.toRat) = 8 * (1 / (p.shares.toRat + f.toRat)) := by ring
    unfold averageSlack
    rw [h8]
    linarith
  linarith

end Rounding

namespace Broker

variable {config : BrokerConfig} {visiting : Visiting} {ops : List Operation} {b b' : Broker} {asset : String}
  {side : OutcomeSide} {quote dollars available n : Decimal} {fill : Fill}

/-- A buy spends the worth of the shares, or the shares are as many as what is spent pays for; the one or the other
is rounded. -/
theorem rounds_of_quoteBuy (h : b.quoteBuy side quote dollars available = .ok (some fill)) :
    Decimal.Rounds (fill.shares.toRat * fill.price.toRat) fill.value ∨
      Decimal.Rounds (fill.value.toRat / fill.price.toRat) fill.shares := by
  obtain ⟨-, -, -, -, -, most, wanted, cost, worth, -, -, hcost, hw, hv, hcut⟩ := quoteBuy_worth h
  by_cases hfull : worth ≤ b.cash
  · have hmin : fill.value.toRat = worth.toRat := by
      rw [hv, Decimal.toRat_min, min_eq_left (Decimal.le_iff_toRat.1 hfull)]
    exact .inl ((Decimal.rounds_mul hw).congr hmin)
  · rw [Decimal.not_le] at hfull
    obtain ⟨hle, hsame⟩ | ⟨-, hdiv⟩ := hcut
    · -- the shares were not counted again, so their worth is the cost that the cash covers
      rw [← hsame, hw] at hcost
      cases hcost
      exact absurd hle (Decimal.not_le.2 hfull)
    · have hmin : fill.value.toRat = b.cash.toRat := by
        rw [hv, Decimal.toRat_min, min_eq_right (Decimal.le_iff_toRat.1 (Decimal.le_of_lt hfull))]
      rw [hmin]
      exact .inr (Decimal.rounds_div hdiv)

/-- What a buy spends is close to the worth of the shares, whether their cost was rounded or all the cash was spent. -/
theorem abs_spent_sub_le (h : b.quoteBuy side quote dollars available = .ok (some fill)) :
    |fill.value.toRat - fill.shares.toRat * fill.price.toRat| ≤ 1 / 10 ^ 28 * (1 + fill.shares.toRat) := by
  obtain ⟨-, -, hp, hp0, hs0, -⟩ := quoteBuy_eq_some h
  obtain ⟨hv0, hvs, -⟩ := quoteBuy_value h
  have hp1 := Decimal.le_one_iff_toRat.1 (buyPrice_le_one hp)
  rw [Decimal.zero_le_iff_toRat] at hv0
  rw [Decimal.le_iff_toRat] at hvs
  rw [Decimal.zero_lt_iff_toRat] at hp0 hs0
  obtain hr | hr := rounds_of_quoteBuy h
  · exact hr.abs_sub_le_succ hv0 hvs
  · rw [abs_sub_comm, abs_mul_sub hp0.ne', abs_of_pos hp0]
    exact (mul_le_of_le_one_right (abs_nonneg _) hp1).trans (hr.abs_sub_le_succ hs0.le le_rfl)

/-- A buy that fills records its price and shares, and leaves the average of these and what was held. -/
theorem averageBetween_of_quoteBuy {p : Position} (hp : (b.position asset side).Sound)
    (hq : b.quoteBuy side quote dollars available = .ok (some fill))
    (h : (b.position asset side).bought fill.shares fill.value = .ok p) (t : Trade) (ht : t.price = fill.price)
    (hts : t.shares = fill.shares) : AverageBetween (b.position asset side) t p.averagePrice := by
  obtain ⟨-, -, hpb, hp0, hs0, -⟩ := quoteBuy_eq_some hq
  obtain ⟨hv0, hvs, -⟩ := quoteBuy_value hq
  have he : 0 ≤ fill.price.toRat ∧ fill.price.toRat ≤ 1 :=
    ⟨(Decimal.zero_lt_iff_toRat.1 hp0).le, Decimal.le_one_iff_toRat.1 (buyPrice_le_one hpb)⟩
  have hclose := abs_le.1 (abs_average_sub_le hp he hv0 hvs (abs_spent_sub_le hq) h)
  have hf := Decimal.zero_lt_iff_toRat.1 hs0
  have hs := Decimal.zero_le_iff_toRat.1 hp.shares_nonneg
  rw [← ht, ← hts] at hclose
  rw [← hts] at hf
  by_cases hheld : .zero < (b.position asset side).shares
  · obtain ⟨hlow, hhigh⟩ := weighted_bounds (a := (b.position asset side).averagePrice.toRat) (e := t.price.toRat) hs hf
    refine ⟨?_, ?_⟩
    · rw [if_pos hheld]
      linarith
    · rw [if_pos hheld]
      linarith
  · have hnone : (b.position asset side).shares.toRat = 0 :=
      le_antisymm (not_lt.1 (mt Decimal.zero_lt_iff_toRat.2 hheld)) hs
    rw [hnone, weighted_of_none hf] at hclose
    refine ⟨?_, ?_⟩
    · rw [if_neg hheld, hnone]
      linarith
    · rw [if_neg hheld, hnone]
      linarith

/-- After any run, a buy that fills leaves an average entry price between the old one and the price that it
records, up to the roundings. -/
theorem averageBetween_of_buy (hr : (new config visiting).runAll ops = .ok b)
    (h : buy asset side quote dollars available b = .ok n b') (h0 : .zero < n) :
    ∃ t, b'.trades = b.trades ++ [t] ∧ t.asset = asset ∧ t.kind = .buyOf side ∧ t.shares = n ∧
      AverageBetween (b.position asset side) t (b'.position asset side).averagePrice := by
  obtain ⟨rfl, -⟩ | ⟨fill, rfl, hq, hb⟩ := filled_of_buy h
  · exact absurd h0 (by decide)
  · obtain ⟨p, cash, hp, -, -, rfl⟩ := bookBuy_eq_ok_iff.1 hb
    have hsound : (b.withPrice asset quote).SoundPositions :=
      ((SoundPositions.new config visiting).runAll hr).sameLedger rfl
    refine ⟨_, rfl, rfl, rfl, rfl, ?_⟩
    rw [position_withPurchase]
    exact averageBetween_of_quoteBuy (hsound asset side) hq hp _ rfl rfl

/-- Rain is bought at two prices, the second time with shares left over from a sale. -/
theorem averageBetween_of_second_buy : ∃ (b b' : Broker) (n : Decimal), (new .standard .oldestFirst).runAll
      [.buy "rain" .yes (.lit 31 2) (.lit 100 0) (.lit 1000 0), .sellAll "rain" .yes (.lit 35 2) (.lit 7 0)] = .ok b ∧
    buy "rain" .yes (.lit 44 2) (.lit 33 0) (.lit 90 0) b = .ok n b' ∧ .zero < n ∧
    ∃ t, b'.trades = b.trades ++ [t] ∧ t.asset = "rain" ∧ t.kind = .buyOf .yes ∧ t.shares = n ∧
      AverageBetween (b.position "rain" .yes) t (b'.position "rain" .yes).averagePrice := by
  have hfill : ∃ b ∈ ((new .standard .oldestFirst).runAll [.buy "rain" .yes (.lit 31 2) (.lit 100 0) (.lit 1000 0),
      .sellAll "rain" .yes (.lit 35 2) (.lit 7 0)]).toOption,
      ∃ n ∈ (buy "rain" .yes (.lit 44 2) (.lit 33 0) (.lit 90 0)).run' b, Decimal.zero < n := by decide +kernel
  obtain ⟨b, hb, n, hn, h0⟩ := hfill
  have hb := eq_ok_of_mem_toOption hb
  have hb' := eq_ok_of_mem_run' hn
  exact ⟨b, _, n, hb, hb', h0, averageBetween_of_buy hb hb' h0⟩

end Broker
end OutcomeMarket

import OutcomeMarket.Proofs.Account.AveragePrice
import OutcomeMarket.Proofs.Account.Closing

/-! How an exit is counted. A sale wins if its price is above the average entry price, which has gone through a rounded
product and a rounded quotient. Of a position bought at once that average is the price of the buy, if the shares are
more than one and no dearer than seventy-nine cents, or if they come out even; then a sale at the same price is a loss
and only a gain is a win. Of other positions the average may be off in its last digits, and ties with it. -/
namespace OutcomeMarket

section Rounding

variable {x : ℚ} {a b d e : Decimal}

/-- A number nearer to a small decimal than half a unit in the last place is rounded to it. -/
theorem Decimal.Rounds.toRat_eq_of_near (h : Rounds x d) (h0 : 0 ≤ x) (he : e.toRat ≤ 79 / 100)
    (hx : |x - e.toRat| < 1 / 2 / 10 ^ 28) : d.toRat = e.toRat := by
  obtain ⟨hlow, hhigh⟩ := abs_lt.1 hx
  have hunit : Max.max (1 / 2 / 10 ^ 28) (5 * |x| / maxMantissa) ≤ (1 / 2 / 10 ^ 28 : ℚ) := by
    refine sup_le le_rfl ?_
    rw [abs_of_nonneg h0, cast_maxMantissa, div_le_iff₀ (by norm_num)]
    linarith
  obtain ⟨hbelow, habove⟩ := abs_le.1 (h.abs_sub_le_half_unit.trans hunit)
  apply toRat_eq_of_abs_sub_lt
  unfold maxScale
  rw [abs_lt]
  constructor <;> linarith

/-- Only from itself does a decimal leave nothing. -/
theorem Decimal.toRat_eq_of_sub (h : a.sub b = .ok d) (hd : d.isZero = true) : a.toRat = b.toRat := by
  have hr := (rounds_sub h).abs_sub_le_half_unit
  rw [isZero_iff_toRat.1 hd, zero_sub, abs_neg] at hr
  apply toRat_eq_of_abs_sub_lt
  unfold maxScale
  rw [cast_maxMantissa] at hr
  obtain hr | hr := le_sup_iff.1 hr
  · linarith
  · rw [le_div_iff₀ (by norm_num)] at hr
    linarith [abs_nonneg (a.toRat - b.toRat)]

end Rounding

/-- Whether the average entry price of what a buy fills is its price: the value is exact, or the shares are more than
one and cheap enough. -/
def Trade.KeepsPrice (t : Trade) : Prop :=
  t.value.toRat = t.shares.toRat * t.price.toRat ∨ (.one < t.shares ∧ t.price ≤ .lit 79 2)

namespace Broker

/-- Whether a record takes shares off a side for more than their average entry price. -/
def gains (b : Broker) (t : Trade) : Bool :=
  t.kind.side?.any fun side => decide ((b.position t.asset side).averagePrice < t.price)

/-- These records were added, and each counted as a win if it gains on what was held, else as a loss. -/
structure Exits (b b' : Broker) (ts : List Trade) : Prop where
  trades : b'.trades = b.trades ++ ts
  wins : b'.wins = b.wins + ts.countP b.gains
  losses : b'.losses = b.losses + ts.countP fun t => !b.gains t

/-- How the way out of a position is recorded: by one sale of all that is held on its side, and perhaps, when an asset
is liquidated, by one of the other side. -/
structure Emptied (b b' : Broker) (asset : String) (side : OutcomeSide) (sold : Trade) (ts : List Trade) : Prop where
  exits : Exits b b' ts
  sales : ∀ t ∈ ts, t.asset = asset ∧ ∃ s, t.kind = .sellOf s
  once : ts.filter (fun t => t.kind = .sellOf side) = [sold]
  shares : sold.shares.toRat = (b.position asset side).shares.toRat

/-- A position bought by one record and closed by another: the exit is counted by the average entry price, which is
the rounded cost of a share, near the price of the buy, and often that price itself. -/
structure ClosedBy (b b' : Broker) (asset : String) (side : OutcomeSide) (bought sold : Trade) (ts : List Trade) : Prop
    extends Emptied b b' asset side sold ts where
  whole : sold.shares.toRat = bought.shares.toRat
  average : Decimal.Rounds (bought.value.toRat / bought.shares.toRat) (b.position asset side).averagePrice
  near : |(b.position asset side).averagePrice.toRat - bought.price.toRat| ≤ averageSlack bought.shares.toRat
  gains_iff : b.gains sold = true ↔ (b.position asset side).averagePrice < sold.price
  gains_of_keepsPrice : bought.KeepsPrice → (b.gains sold = true ↔ bought.price < sold.price)

variable {b b' u v w : Broker} {asset : String} {side : OutcomeSide} {fill : Fill} {p : Position}
  {quote dollars available filled spent n : Decimal} {limit : Option Decimal} {t bought sold : Trade}
  {ts us : List Trade}

section Exits

theorem sellOf_inj {s t : OutcomeSide} : TradeKind.sellOf s = .sellOf t ↔ s = t := by
  cases s <;> cases t <;> decide

theorem gains_sellOf (hk : t.kind = .sellOf side) :
    b.gains t = decide ((b.position t.asset side).averagePrice < t.price) := by
  unfold gains
  rw [hk, TradeKind.side?_sellOf]
  rfl

theorem exits_nil (hb : b.SameBooks b') : Exits b b' [] := by
  refine ⟨?_, hb.wins, hb.losses⟩
  rw [hb.trades, List.append_nil]

/-- Exits one after the other, if the earlier ones leave the entry prices of the later ones alone. -/
theorem Exits.append (h : Exits b u ts) (h' : Exits u b' us) (hg : ∀ t ∈ us, u.gains t = b.gains t) :
    Exits b b' (ts ++ us) := by
  have hwins : us.countP u.gains = us.countP b.gains := List.countP_congr fun t ht => by rw [hg t ht]
  have hlosses : us.countP (fun t => !u.gains t) = us.countP fun t => !b.gains t :=
    List.countP_congr fun t ht => by rw [hg t ht]
  refine ⟨?_, ?_, ?_⟩
  · rw [h'.trades, h.trades, List.append_assoc]
  · rw [h'.wins, h.wins, hwins, List.countP_append, Nat.add_assoc]
  · rw [h'.losses, h.losses, hlosses, List.countP_append, Nat.add_assoc]

theorem exits_withSale (b : Broker) (asset : String) (side : OutcomeSide) (fill : Fill) (rest cash : Decimal) :
    ∃ t, Exits b (b.withSale asset side fill rest cash) [t] ∧ t.asset = asset ∧ t.kind = .sellOf side ∧
      t.shares = fill.shares := by
  refine ⟨⟨asset, b.clock, .sellOf side, fill.price, fill.shares, fill.value, .zero⟩, ⟨rfl, ?_, ?_⟩, rfl, rfl, rfl⟩
  · refine (b.wins_withExit _ _).trans ?_
    rw [List.countP_singleton, gains_sellOf rfl]
    simp only [decide_eq_true_eq]
  · refine (b.losses_withExit _ _).trans ?_
    rw [List.countP_singleton, gains_sellOf rfl]
    simp only [Bool.not_eq_true', decide_eq_false_iff_not, ite_not]

theorem Exits.sameBooks (h : Exits b u ts) (hb : u.SameBooks b') : Exits b b' ts :=
  ⟨hb.trades.trans h.trades, hb.wins.trans h.wins, hb.losses.trans h.losses⟩

/-- A sale adds no record or one. -/
theorem exits_of_sell (h : sell asset side quote limit b = .ok n b') :
    (b' = b.withPrice asset quote ∧ Exits b b' []) ∨ ∃ t, Exits b b' [t] ∧ t.asset = asset ∧ t.kind = .sellOf side ∧
      ∃ rest, (b.position asset side).shares.sub t.shares = .ok rest ∧
        b'.position asset side = (b.position asset side).withShares rest := by
  obtain ⟨-, rfl⟩ | ⟨fill, -, -, hb⟩ := filled_of_sell h
  · exact .inl ⟨rfl, exits_nil (sameBooks_withPrice b asset quote)⟩
  · obtain ⟨rest, cash, equity, -, -, -, hm⟩ := bookSell_eq_ok_iff.1 hb
    obtain ⟨t, hx, ha, hk, hs⟩ := exits_withSale (b.withPrice asset quote) asset side fill rest cash
    have hx := hx.sameBooks (sameBooks_of_markEquity hm)
    obtain ⟨rest, hr, hp⟩ := position_of_bookSell hb
    exact .inr ⟨t, ⟨hx.trades, hx.wins, hx.losses⟩, ha, hk, rest, hs ▸ hr, hp⟩

/-- A sale that empties a side which was not empty is one record of all its shares. -/
theorem exits_of_emptying (h0 : (b.position asset side).isFlat = false) (h : sell asset side quote limit b = .ok n b')
    (hc : (b'.position asset side).isFlat = true) : ∃ sold, Exits b b' [sold] ∧
      (∀ t ∈ [sold], t.asset = asset ∧ t.kind = .sellOf side) ∧
      sold.shares.toRat = (b.position asset side).shares.toRat := by
  obtain ⟨rfl, -⟩ | ⟨t, hx, ha, hk, rest, hr, hp⟩ := exits_of_sell h
  · have hsame : (b.withPrice asset quote).position asset side = b.position asset side := rfl
    rw [hsame, h0] at hc
    cases hc
  · rw [hp] at hc
    exact ⟨t, hx, List.forall_mem_singleton.2 ⟨ha, hk⟩, (Decimal.toRat_eq_of_sub hr hc).symm⟩

/-- What a sale counts; of an empty side, nothing. -/
theorem exists_exits_of_sell (h : sell asset side quote limit b = .ok n b') : ∃ ts, Exits b b' ts ∧
    (∀ t ∈ ts, t.asset = asset ∧ t.kind = .sellOf side) ∧ ((b.position asset side).isFlat = true → ts = []) := by
  by_cases hf : (b.position asset side).isFlat = true
  · rw [sell_of_flat hf] at h
    cases h
    exact ⟨[], exits_nil (sameBooks_withPrice b asset quote), by simp, fun _ => rfl⟩
  · obtain ⟨-, hx⟩ | ⟨t, hx, ha, hk, -⟩ := exits_of_sell h
    · exact ⟨[], hx, by simp, fun _ => rfl⟩
    · exact ⟨[t], hx, List.forall_mem_singleton.2 ⟨ha, hk⟩, fun h => absurd h hf⟩

theorem gains_congr (hk : t.kind = .sellOf side) (hp : u.position t.asset side = b.position t.asset side) :
    u.gains t = b.gains t := by
  rw [gains_sellOf hk, gains_sellOf hk, hp]

theorem filter_sales {s : OutcomeSide} (h : ∀ t ∈ ts, t.asset = asset ∧ t.kind = .sellOf s) :
    ts.filter (fun t => t.kind = .sellOf side) = if s = side then ts else [] := by
  split
  · subst s
    exact List.filter_eq_self.2 fun t ht => decide_eq_true (h t ht).2
  · rename_i hs
    refine List.filter_eq_nil_iff.2 fun t ht => ?_
    rw [(h t ht).2, decide_eq_true_iff, sellOf_inj]
    exact hs

/-- The sales of a liquidation, the one side after the other. -/
theorem exits_of_both {yes : Decimal} (hy : sell asset .yes quote none b = .ok yes u) (hx : Exits b u ts)
    (hx' : Exits u b' us) (hts : ∀ t ∈ ts, t.asset = asset ∧ t.kind = .sellOf .yes)
    (hus : ∀ t ∈ us, t.asset = asset ∧ t.kind = .sellOf .no) :
    Exits b b' (ts ++ us) ∧ ∀ t ∈ ts ++ us, t.asset = asset ∧ ∃ s, t.kind = .sellOf s := by
  constructor
  · refine hx.append hx' fun t ht => ?_
    obtain ⟨ha, hk⟩ := hus t ht
    exact gains_congr hk (position_of_sell (.inr (by decide)) hy)
  · intro t ht
    obtain ht | ht := List.mem_append.1 ht
    · exact ⟨(hts t ht).1, .yes, (hts t ht).2⟩
    · exact ⟨(hus t ht).1, .no, (hus t ht).2⟩

theorem emptied_of_liquidate (h0 : (b.position asset side).isFlat = false) (h : liquidate asset quote b = .ok n b')
    (hc : (b'.position asset side).isFlat = true) : ∃ t ts, Emptied b b' asset side t ts ∧
      ((b.position asset side.opposite).isFlat = true → ts = [t]) := by
  obtain ⟨yes, u, no, hy, hn⟩ := liquidate_eq_ok h
  have hstay : u.position asset .no = b.position asset .no := position_of_sell (.inr (by decide)) hy
  cases side with
  | yes =>
    rw [position_of_sell (.inr (by decide)) hn] at hc
    obtain ⟨t, hx, ht, hs⟩ := exits_of_emptying h0 hy hc
    obtain ⟨us, hx', hus, hnone⟩ := exists_exits_of_sell hn
    obtain ⟨hboth, hsales⟩ := exits_of_both hy hx hx' ht hus
    refine ⟨t, [t] ++ us, ⟨hboth, hsales, ?_, hs⟩, fun hf => ?_⟩
    · rw [List.filter_append, filter_sales ht, filter_sales hus]
      rfl
    · rw [hnone (hstay ▸ hf)]
      rfl
  | no =>
    obtain ⟨us, hx, hus, hnone⟩ := exists_exits_of_sell hy
    obtain ⟨t, hx', ht, hs⟩ := exits_of_emptying (hstay ▸ h0) hn hc
    obtain ⟨hboth, hsales⟩ := exits_of_both hy hx hx' hus ht
    refine ⟨t, us ++ [t], ⟨hboth, hsales, ?_, hstay ▸ hs⟩, fun hf => ?_⟩
    · rw [List.filter_append, filter_sales hus, filter_sales ht]
      rfl
    · rw [hnone hf]
      rfl

/-- A way out that empties a side. -/
theorem emptied_of_exit {exit : Exit} (h0 : (b.position asset side).isFlat = false)
    (h : exit.run asset side quote b = .ok n b') (hc : (b'.position asset side).isFlat = true) : ∃ t ts,
      Emptied b b' asset side t ts ∧
      ((exit = .liquidate → (b.position asset side.opposite).isFlat = true) → ts = [t]) := by
  cases exit with
  | sellAll available =>
    obtain ⟨limit, -, h⟩ := sellAll_eq_ok_iff.1 h
    obtain ⟨t, hx, ht, hs⟩ := exits_of_emptying h0 h hc
    refine ⟨t, [t], ⟨hx, fun t' ht' => ⟨(ht t' ht').1, side, (ht t' ht').2⟩, ?_, hs⟩, fun _ => rfl⟩
    rw [filter_sales ht, if_pos rfl]
  | liquidate =>
    obtain ⟨t, ts, he, hone⟩ := emptied_of_liquidate h0 h hc
    exact ⟨t, ts, he, fun hf => hone (hf rfl)⟩

end Exits

section Average

/-- Of what is bought into an empty side, the average entry price is the rounded cost of a share. -/
theorem rounds_average_of_flat {q : Position} (hf : p.isFlat = true) (h : p.bought filled spent = .ok q) :
    Decimal.Rounds (spent.toRat / filled.toRat) q.averagePrice := by
  have h0 := Decimal.isZero_iff_toRat.1 hf
  have hshares := shares_of_bought hf h
  obtain ⟨-, shares, basis, cost, average, -, hb, hc, hd, rfl⟩ := bought_eq_ok_iff.1 h
  have hbasis : basis.toRat = 0 := by
    have hr := Decimal.rounds_mul hb
    rw [h0, zero_mul, ← Decimal.toRat_zero] at hr
    exact hr.eq_toRat.trans Decimal.toRat_zero
  have hcost : cost.toRat = spent.toRat := by
    have hr := Decimal.rounds_add hc
    rw [hbasis, zero_add] at hr
    exact hr.eq_toRat
  have hr := Decimal.rounds_div hd
  rw [hcost, hshares] at hr
  exact hr

/-- A buy of more than one share, not too dear, spends their worth up to less than half a unit for each. -/
theorem abs_spent_sub_lt (h : b.quoteBuy side quote dollars available = .ok (some fill)) (h1 : .one < fill.shares)
    (hp : fill.price ≤ .lit 79 2) :
    |fill.value.toRat - fill.shares.toRat * fill.price.toRat| < 1 / 2 / 10 ^ 28 * fill.shares.toRat := by
  obtain ⟨-, -, -, hp0, -⟩ := quoteBuy_eq_some h
  obtain ⟨hv0, -, -⟩ := quoteBuy_value h
  have hnear := (abs_le.1 (abs_spent_sub_le h)).2
  rw [Decimal.zero_le_iff_toRat] at hv0
  rw [Decimal.zero_lt_iff_toRat] at hp0
  rw [Decimal.lt_iff_toRat, Decimal.toRat_one] at h1
  rw [Decimal.le_iff_toRat, Decimal.toRat_lit] at hp
  have hworth : fill.shares.toRat * fill.price.toRat ≤ 79 / 100 * fill.shares.toRat := by
    rw [mul_comm]
    norm_num at hp
    gcongr
  obtain hr | hr := rounds_of_quoteBuy h
  · refine hr.abs_sub_le_half_unit.trans_lt (sup_lt_iff.2 ⟨by linarith, ?_⟩)
    rw [abs_of_nonneg (by positivity), Decimal.cast_maxMantissa, div_lt_iff₀ (by norm_num)]
    linarith
  · rw [abs_sub_comm, abs_mul_sub hp0.ne', abs_of_pos hp0]
    refine (mul_le_mul_of_nonneg_right hr.abs_sub_le_half_unit hp0.le).trans_lt ?_
    rw [max_mul_of_nonneg _ _ hp0.le, abs_of_nonneg (by positivity), mul_div_right_comm, mul_assoc,
      div_mul_cancel₀ _ hp0.ne']
    refine sup_lt_iff.2 ⟨by linarith, ?_⟩
    rw [Decimal.cast_maxMantissa]
    linarith

section Kept

variable {q : Position} (hf : p.isFlat = true) (hq : b.quoteBuy side quote dollars available = .ok (some fill))
  (h : p.bought fill.shares fill.value = .ok q)
include hf hq h

/-- The average entry price of a buy into an empty side is near the price of the buy. -/
theorem abs_average_sub_price_le : |q.averagePrice.toRat - fill.price.toRat| ≤ averageSlack fill.shares.toRat := by
  obtain ⟨-, -, -, -, hs0, -⟩ := quoteBuy_eq_some hq
  obtain ⟨hv0, hvs, -⟩ := quoteBuy_value hq
  have hr := rounds_average_of_flat hf h
  have hspent := abs_spent_sub_le hq
  rw [Decimal.zero_le_iff_toRat] at hv0
  rw [Decimal.zero_lt_iff_toRat] at hs0
  rw [Decimal.le_iff_toRat] at hvs
  have hunit : fill.value.toRat / fill.shares.toRat ≤ Decimal.one.toRat := by
    rw [Decimal.toRat_one]
    exact div_le_one_of_le₀ hvs hs0.le
  have hround := hr.abs_sub_le_succ (hr.nonneg (by positivity)) (hr.le_of_le hunit)
  rw [Decimal.toRat_one] at hround
  have hcost : |fill.value.toRat / fill.shares.toRat - fill.price.toRat| ≤
      1 / 10 ^ 28 * (1 / fill.shares.toRat + 1) := by
    rw [abs_quotient_sub hs0, div_le_iff₀ hs0]
    refine hspent.trans_eq ?_
    field_simp
  have hpos : 0 ≤ 1 / fill.shares.toRat := by positivity
  have htotal := abs_sub_le q.averagePrice.toRat (fill.value.toRat / fill.shares.toRat) fill.price.toRat
  unfold averageSlack
  linarith

/-- If the price is kept, then it is the average entry price. -/
theorem average_of_keepsPrice (ht : t.price = fill.price) (hts : t.shares = fill.shares) (hv : t.value = fill.value)
    (hk : t.KeepsPrice) : q.averagePrice.toRat = t.price.toRat := by
  obtain ⟨-, -, -, -, hs0, -⟩ := quoteBuy_eq_some hq
  obtain ⟨hv0, -, -⟩ := quoteBuy_value hq
  have hr := rounds_average_of_flat hf h
  unfold Trade.KeepsPrice at hk
  rw [hv, hts, ht] at hk
  rw [ht]
  rw [Decimal.zero_le_iff_toRat] at hv0
  rw [Decimal.zero_lt_iff_toRat] at hs0
  obtain hexact | ⟨h1, hp⟩ := hk
  · rw [hexact, mul_div_cancel_left₀ _ hs0.ne'] at hr
    exact hr.eq_toRat
  · have hspent := abs_spent_sub_lt hq h1 hp
    rw [Decimal.le_iff_toRat, Decimal.toRat_lit] at hp
    norm_num at hp
    refine hr.toRat_eq_of_near (by positivity) hp ?_
    rw [abs_quotient_sub hs0, div_lt_iff₀ hs0]
    exact hspent

end Kept

end Average

/-- Of a position that one buy opened, nothing else touched and one sale closed, the sale counts as a win if its price
is above the average entry price, else as a loss; and where the price of the buy is kept, if it is above that price. -/
theorem closedBy_of_exit {exit : Exit} {ops : List Operation} {quote' : Decimal} {m : Decimal}
    (hf : (b.position asset side).isFlat = true) (hb : buy asset side quote dollars available b = .ok m u)
    (h0 : .zero < m) (hs : ∀ op ∈ ops, op.Spares asset side) (hr : u.runAll ops = .ok v)
    (hx : exit.run asset side quote' v = .ok n w) (hc : (w.position asset side).isFlat = true) :
    ∃ bought sold ts, u.trades = b.trades ++ [bought] ∧ bought.asset = asset ∧ bought.kind = .buyOf side ∧
      bought.shares = m ∧ ClosedBy v w asset side bought sold ts ∧
      ((exit = .liquidate → (v.position asset side.opposite).isFlat = true) → ts = [sold]) := by
  obtain ⟨rfl, -⟩ | ⟨fill, rfl, hq, hb⟩ := filled_of_buy hb
  · exact absurd h0 (by decide)
  · obtain ⟨p, cash, hp, -, -, rfl⟩ := bookBuy_eq_ok_iff.1 hb
    have hf : ((b.withPrice asset quote).position asset side).isFlat = true := hf
    have hheld : v.position asset side = p := (position_of_runAll hs hr).trans (position_withPurchase ..)
    have hshares := shares_of_bought hf hp
    have hopen : (v.position asset side).isFlat = false := by
      rw [hheld, Bool.eq_false_iff]
      intro hz
      rw [Decimal.zero_lt_iff_toRat, ← hshares, Decimal.isZero_iff_toRat.1 hz] at h0
      exact lt_irrefl 0 h0
    obtain ⟨sold, ts, he, hone⟩ := emptied_of_exit hopen hx hc
    have hsold : sold ∈ ts.filter fun t => t.kind = .sellOf side := he.once ▸ List.mem_singleton_self sold
    obtain ⟨hmem, hkind⟩ := List.mem_filter.1 hsold
    have hgains : v.gains sold = true ↔ (v.position asset side).averagePrice < sold.price := by
      rw [gains_sellOf (of_decide_eq_true hkind), (he.sales sold hmem).1, decide_eq_true_iff]
    refine ⟨⟨asset, b.clock, .buyOf side, fill.price, fill.shares, fill.value, .zero⟩, sold, ts, rfl, rfl, rfl, rfl,
      { he with whole := ?_, average := ?_, near := ?_, gains_iff := hgains, gains_of_keepsPrice := ?_ }, hone⟩
    · rw [he.shares, hheld]
      exact hshares
    · rw [hheld]
      exact rounds_average_of_flat hf hp
    · rw [hheld]
      exact abs_average_sub_price_le hf hq hp
    · intro hk
      have haverage := average_of_keepsPrice hf hq hp rfl rfl rfl hk
      rw [hgains, hheld, Decimal.lt_iff_toRat, Decimal.lt_iff_toRat, haverage]

/-- What happens between a buy of rain and its liquidation. -/
def otherBusiness : List Operation :=
  [.buy "rain" .no (.lit 33 2) (.lit 50 0) (.lit 900 0), .setPrice "rain" (.lit 30 2), .liquidate "snow" .one]

/-- Rain is bought on both sides and liquidated at a quote at which the first position breaks even. -/
theorem closedBy_of_break_even : ∃ (u v w : Broker) (m n : Decimal),
    ((new .standard .oldestFirst).position "rain" .yes).isFlat = true ∧
    buy "rain" .yes (.lit 31 2) (.lit 100 0) (.lit 1000 0) (new .standard .oldestFirst) = .ok m u ∧ .zero < m ∧
    (∀ op ∈ otherBusiness, op.Spares "rain" .yes) ∧ u.runAll otherBusiness = .ok v ∧
    Exit.liquidate.run "rain" .yes (.lit 34 2) v = .ok n w ∧ (w.position "rain" .yes).isFlat = true ∧
    ∃ bought sold ts, u.trades = (new .standard .oldestFirst).trades ++ [bought] ∧ bought.asset = "rain" ∧
      bought.kind = .buyOf .yes ∧ bought.shares = m ∧ ClosedBy v w "rain" .yes bought sold ts ∧
      ((Exit.liquidate = .liquidate → (v.position "rain" OutcomeSide.yes.opposite).isFlat = true) → ts = [sold]) := by
  have hruns : ∃ m ∈ (buy "rain" .yes (.lit 31 2) (.lit 100 0) (.lit 1000 0)).run' (new .standard .oldestFirst),
      Decimal.zero < m ∧
      ∃ v ∈ ((after (buy "rain" .yes (.lit 31 2) (.lit 100 0) (.lit 1000 0)) (new .standard .oldestFirst)).runAll
          otherBusiness).toOption,
        ∃ n ∈ (Exit.liquidate.run "rain" .yes (.lit 34 2)).run' v,
          ((after (Exit.liquidate.run "rain" .yes (.lit 34 2)) v).position "rain" .yes).isFlat = true := by
    decide +kernel
  obtain ⟨m, hm, h0, v, hv, n, hn, hc⟩ := hruns
  have hflat : ((new .standard .oldestFirst).position "rain" .yes).isFlat = true := by decide
  have hspares : ∀ op ∈ otherBusiness, op.Spares "rain" .yes := by decide
  have hm := eq_ok_of_mem_run' hm
  have hv := eq_ok_of_mem_toOption hv
  have hn := eq_ok_of_mem_run' hn
  exact ⟨_, v, _, m, n, hflat, hm, h0, hspares, hv, hn, hc, closedBy_of_exit hflat hm h0 hspares hv hn hc⟩

/-- A break-even sale that wins, with the cash back to the cent, and a sale above the price of the buy that loses:
dear shares, whose averages are off in the last digit. -/
theorem miscounted_exits :
    (∃ b ∈ ((new .standard .oldestFirst).runAll [.buy "rain" .yes (.lit 96 2) (.lit 86 0) (.lit 1000 0),
        .sellAll "rain" .yes (.lit 99 2) (.lit 1000 0)]).toOption,
      b.trades.map (·.kind) = [.buy, .sell] ∧ b.trades.map (·.price) = [.lit 975 3, .lit 975 3] ∧
      (b.position "rain" .yes).isFlat = true ∧ b.wins = 1 ∧ b.losses = 0) ∧
    ∃ b ∈ ((new .standard .oldestFirst).runAll [.buy "rain" .yes (.lit 94 2) (.lit 80 0) (.lit 1000 0),
        .sellAll "rain" .yes (.lit 9700000000000000000000000001 28) (.lit 1000 0)]).toOption,
      b.trades.map (·.kind) = [.buy, .sell] ∧
      b.trades.map (·.price) = [.lit 955 3, .lit 9550000000000000000000000001 28] ∧
      (b.position "rain" .yes).isFlat = true ∧ b.wins = 0 ∧ b.losses = 1 := by
  decide +kernel

end Broker
end OutcomeMarket

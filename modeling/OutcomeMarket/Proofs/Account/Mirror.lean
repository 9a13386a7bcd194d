import OutcomeMarket.Proofs.Account.RoundTrip
import OutcomeMarket.Proofs.Decimal.Congruence

/-! The two sides of a market mirror each other. Trading one side at a quote does the same as trading the other side
at what the quote leaves of a dollar: the fills have the same values, and the accounts stay images of each other.
Equity is the exception, since it adds up the sides in a fixed order and may round differently. -/
namespace OutcomeMarket

/-- The kind of the same event on the other side. -/
def TradeKind.opposite : TradeKind → TradeKind
  | buy => buyNo
  | buyNo => buy
  | sell => sellNo
  | sellNo => sell
  | resolveYes => resolveNo
  | resolveNo => resolveYes
  | rejectBuy => rejectBuy
  | rejectSell => rejectSell

/-- Holdings of the same value. -/
structure Position.SameValue (p q : Position) : Prop where
  shares : p.shares.SameValue q.shares
  averagePrice : p.averagePrice.SameValue q.averagePrice

/-- Fills of the same value. -/
structure Broker.Fill.SameValue (f g : Fill) : Prop where
  price : f.price.SameValue g.price
  shares : f.shares.SameValue g.shares
  value : f.value.SameValue g.value

/-- What is held on one side is held in the other ledger on the other side. -/
def Ledger.Mirrors (l l' : Ledger) : Prop :=
  ∀ asset side, (l.get asset side).SameValue (l'.get asset side.opposite)

/-- Records of the same event on the two sides. -/
structure Trade.Mirrors (t t' : Trade) : Prop where
  asset : t'.asset = t.asset
  time : t'.time = t.time
  kind : t'.kind = t.kind.opposite
  price : t.price.SameValue t'.price
  shares : t.shares.SameValue t'.shares
  value : t.value.SameValue t'.value
  fee : t.fee.SameValue t'.fee

/-- Two accounts that differ by an exchange of the sides. Their prices and the extremes of their equity may differ. -/
structure Broker.Mirrors (b b' : Broker) : Prop where
  config : b'.config = b.config
  clock : b'.clock = b.clock
  cash : b.cash.SameValue b'.cash
  ledger : b.ledger.Mirrors b'.ledger
  trades : List.Forall₂ Trade.Mirrors b.trades b'.trades
  actions : b'.actions = b.actions
  tradesExecuted : b'.tradesExecuted = b.tradesExecuted
  wins : b'.wins = b.wins
  losses : b'.losses = b.losses

/-- Quotes that make up a dollar. -/
structure Complementary (quote quote' : Decimal) : Prop where
  fair : Broker.FairOutcome quote
  add_eq_one : quote.toRat + quote'.toRat = 1

/-- Buys and sales of the same amounts on the two sides. -/
inductive Operation.Mirrors : Operation → Operation → Prop where
  | buy {asset : String} {side : OutcomeSide} {quote quote' dollars available : Decimal}
      (h : Complementary quote quote') :
      Mirrors (.buy asset side quote dollars available) (.buy asset side.opposite quote' dollars available)
  | sellAll {asset : String} {side : OutcomeSide} {quote quote' available : Decimal}
      (h : Complementary quote quote') :
      Mirrors (.sellAll asset side quote available) (.sellAll asset side.opposite quote' available)

/-- How a computation ends on the other side, where it answered `a` and left `b`: with the same answer and the
mirrored account, or with that account but unable to value it. -/
inductive Broker.Reflected {α β : Type} (R : α → β → Prop) (a : α) (b : Broker) :
    EStateM.Result Fault Broker β → Prop where
  | answered {a' : β} {b' : Broker} (ha : R a a') (hb : b.Mirrors b') : Reflected R a b (.ok a' b')
  | unvalued {f : Fault} {v b' : Broker} (hv : markEquity v = .error f b') (hb : b.Mirrors b') :
      Reflected R a b (.error f b')

section Sides

variable {s t : OutcomeSide} {quote quote' : Decimal}

theorem OutcomeSide.opposite_inj : s.opposite = t.opposite ↔ s = t := by
  cases s <;> cases t <;> decide

theorem OutcomeSide.worth_opposite (s : OutcomeSide) (q : ℚ) : s.opposite.worth (1 - q) = s.worth q := by
  cases s with
  | yes => exact sub_sub_cancel 1 q
  | no => rfl

theorem TradeKind.opposite_buyOf (s : OutcomeSide) : (buyOf s).opposite = buyOf s.opposite := by cases s <;> rfl

theorem TradeKind.opposite_sellOf (s : OutcomeSide) : (sellOf s).opposite = sellOf s.opposite := by cases s <;> rfl

/-- What a quote leaves of a dollar complements it. -/
theorem complementary_of_one_sub (ho : Broker.FairOutcome quote) (h : Decimal.one.sub quote = .ok quote') :
    Complementary quote quote' := by
  have hno : OutcomeSide.no.priceFromYes quote = .ok quote' := h
  refine ⟨ho, ?_⟩
  rw [Broker.toRat_priceFromYes ho hno]
  exact add_sub_cancel quote.toRat 1

theorem Complementary.carries_priceFromYes (h : Complementary quote quote') :
    Carries Decimal.SameValue (s.priceFromYes quote) (s.opposite.priceFromYes quote') := by
  intro price hp
  have hrest : quote'.toRat = 1 - quote.toRat := by linarith [h.add_eq_one]
  have hfair : Broker.FairOutcome quote' := by
    obtain ⟨h0, h1⟩ := h.fair
    rw [Decimal.zero_le_iff_toRat] at h0
    rw [Decimal.le_one_iff_toRat] at h1
    exact ⟨Decimal.zero_le_iff_toRat.2 (by linarith), Decimal.le_one_iff_toRat.2 (by linarith)⟩
  obtain ⟨price', hp', hv⟩ : ∃ price', s.opposite.priceFromYes quote' = .ok price' ∧
    price'.toRat = s.opposite.worth quote'.toRat := Broker.exists_priceFromYes hfair
  refine ⟨price', hp', ?_⟩
  rw [Decimal.sameValue_iff_toRat, Broker.toRat_priceFromYes h.fair hp, hv, hrest, OutcomeSide.worth_opposite]

end Sides

section Positions

variable {p q : Position} {l l' : Ledger} {asset : String} {side : OutcomeSide} {x y spent spent' : Decimal}

theorem Position.SameValue.refl (p : Position) : p.SameValue p := ⟨.refl _, .refl _⟩

theorem Position.SameValue.withShares (h : p.SameValue q) (hx : x.SameValue y) :
    (p.withShares x).SameValue (q.withShares y) := by
  refine ⟨hx, ?_⟩
  unfold Position.withShares
  rw [Decimal.isZero_congr hx]
  dsimp only
  split
  · exact .refl _
  · exact h.averagePrice

theorem Position.SameValue.carries_bought (h : p.SameValue q) (hx : x.SameValue y) (hs : spent.SameValue spent') :
    Carries Position.SameValue (p.bought x spent) (q.bought y spent') := by
  intro r hr
  obtain ⟨h0, shares, basis, cost, average, hshares, hbasis, hcost, haverage, rfl⟩ := Broker.bought_eq_ok_iff.1 hr
  obtain ⟨shares', hshares', hss⟩ := Decimal.carries_add h.shares hx shares hshares
  obtain ⟨basis', hbasis', hbb⟩ := Decimal.carries_mul h.shares h.averagePrice basis hbasis
  obtain ⟨cost', hcost', hcc⟩ := Decimal.carries_add hbb hs cost hcost
  obtain ⟨average', haverage', haa⟩ := Decimal.carries_div hcc hss average haverage
  refine ⟨⟨shares', average'⟩, Broker.bought_eq_ok_iff.2 ?_, hss, haa⟩
  exact ⟨(Decimal.lt_congr (.refl _) hx).1 h0, shares', basis', cost', average', hshares', hbasis', hcost',
    haverage', rfl⟩

theorem Ledger.Mirrors.set (h : l.Mirrors l') (hp : p.SameValue q) :
    (l.set asset side p).Mirrors (l'.set asset side.opposite q) := by
  intro other t
  simp only [get_set, OutcomeSide.opposite_inj]
  split
  · exact hp
  · exact h other t

end Positions

namespace Broker

variable {b b' u : Broker} {asset : String} {side : OutcomeSide} {fill fill' : Fill} {p p' : Position}
  {quote quote' dollars available limit limit' cash cash' rest rest' n x x' y y' : Decimal}

section Fills

variable (hb : b.Mirrors b') (hq : Complementary quote quote')
include hb

theorem Mirrors.position (asset : String) (side : OutcomeSide) :
    (b.position asset side).SameValue (b'.position asset side.opposite) := hb.ledger asset side

theorem Mirrors.carries_cap : Carries Decimal.SameValue (b.cap available) (b'.cap available) := by
  unfold cap
  rw [hb.config]
  exact Decimal.carries_mul (.refl _) (.refl _)

include hq

theorem Mirrors.carries_buyPrice :
    Carries Decimal.SameValue (b.buyPrice side quote) (b'.buyPrice side.opposite quote') := by
  unfold buyPrice
  rw [hb.config]
  refine hq.carries_priceFromYes.bind fun quoted quoted' hquoted => ?_
  refine (Decimal.carries_add hquoted (.refl _)).bind fun price price' hprice => ?_
  exact carries_pure (Decimal.min_congr hprice (.refl _))

theorem Mirrors.carries_sellPrice :
    Carries Decimal.SameValue (b.sellPrice side quote) (b'.sellPrice side.opposite quote') := by
  unfold sellPrice
  rw [hb.config]
  refine hq.carries_priceFromYes.bind fun quoted quoted' hquoted => ?_
  refine (Decimal.carries_sub hquoted (.refl _)).bind fun price price' hprice => ?_
  exact carries_pure (Decimal.max_congr hprice (.refl _))

theorem Mirrors.carries_quoteBuy : Carries (Option.Rel Fill.SameValue) (b.quoteBuy side quote dollars available)
    (b'.quoteBuy side.opposite quote' dollars available) := by
  have hcash := hb.cash
  unfold quoteBuy
  refine carries_ite (or_congr_right (Decimal.lt_congr hcash (.refl _))) carries_none ?_
  refine (hb.carries_buyPrice hq).bind fun price price' hp => ?_
  refine carries_ite (Decimal.le_congr hp (.refl _)) carries_none ?_
  refine (Decimal.carries_div (.refl _) hp).bind fun desired desired' hd => ?_
  refine hb.carries_cap.bind fun most most' hm => ?_
  have hw := Decimal.min_congr hd hm
  refine (Decimal.carries_mul hw hp).bind fun cost cost' hc => ?_
  -- both ways of cutting the order go on in the same way
  have hrest : ∀ shares shares' : Decimal, shares.SameValue shares' →
      Carries (Option.Rel Fill.SameValue)
        (if shares ≤ .zero then pure none else do
          let value ← shares.mul price
          return some ⟨price, shares, value.min b.cash⟩ : Decimal.Checked (Option Fill))
        (if shares' ≤ .zero then pure none else do
          let value ← shares'.mul price'
          return some ⟨price', shares', value.min b'.cash⟩ : Decimal.Checked (Option Fill)) := by
    intro shares shares' hs
    refine carries_ite (Decimal.le_congr hs (.refl _)) carries_none ?_
    refine (Decimal.carries_mul hs hp).bind fun value value' hv => ?_
    exact carries_pure (.some ⟨hp, hs, Decimal.min_congr hv hcash⟩)
  refine carries_ite (Decimal.lt_congr hcash hc) ?_ ?_
  · exact (Decimal.carries_div hcash hp).bind hrest
  · exact hrest _ _ hw

theorem Mirrors.carries_quoteSell (hl : limit.SameValue limit') : Carries (Option.Rel Fill.SameValue)
    (b.quoteSell asset side quote (some limit)) (b'.quoteSell asset side.opposite quote' (some limit')) := by
  have hheld := (hb.position asset side).shares
  unfold quoteSell
  refine carries_ite (Decimal.le_congr hheld (.refl _)) carries_none ?_
  refine (hb.carries_sellPrice hq).bind fun price price' hp => ?_
  have hs := Decimal.min_congr hheld hl
  refine carries_ite (Decimal.le_congr hs (.refl _)) carries_none ?_
  refine (Decimal.carries_mul hs hp).bind fun value value' hv => ?_
  exact carries_pure (.some ⟨hp, hs, hv⟩)

end Fills

section Bookings

theorem Mirrors.withPrice (hb : b.Mirrors b') (asset : String) (price price' : Decimal) :
    (b.withPrice asset price).Mirrors (b'.withPrice asset price') :=
  ⟨hb.config, hb.clock, hb.cash, hb.ledger, hb.trades, hb.actions, hb.tradesExecuted, hb.wins, hb.losses⟩

theorem Mirrors.withExtremes (hb : b.Mirrors b') (peak fall peak' fall' : Decimal) :
    (b.withExtremes peak fall).Mirrors (b'.withExtremes peak' fall') :=
  ⟨hb.config, hb.clock, hb.cash, hb.ledger, hb.trades, hb.actions, hb.tradesExecuted, hb.wins, hb.losses⟩

/-- The next record of each history. -/
theorem Mirrors.record (hb : b.Mirrors b') (asset : String) (kind : TradeKind) (hf : fill.SameValue fill') :
    List.Forall₂ Trade.Mirrors
      (b.trades ++ [⟨asset, b.clock, kind, fill.price, fill.shares, fill.value, .zero⟩])
      (b'.trades ++ [⟨asset, b'.clock, kind.opposite, fill'.price, fill'.shares, fill'.value, .zero⟩]) :=
  List.rel_append hb.trades (.cons ⟨rfl, hb.clock, rfl, hf.price, hf.shares, hf.value, .refl _⟩ .nil)

/-- Whether an exit wins is a matter of values. -/
theorem Mirrors.withExit (hb : b.Mirrors b') (hx : x.SameValue x') (hy : y.SameValue y') :
    (b.withExit x y).Mirrors (b'.withExit x' y') := by
  have hwin : y < x ↔ y' < x' := Decimal.lt_congr hy hx
  refine ⟨hb.config, hb.clock, hb.cash, hb.ledger, hb.trades, hb.actions, hb.tradesExecuted, ?_, ?_⟩
  · simp only [Broker.withExit, hwin, hb.wins]
  · simp only [Broker.withExit, hwin, hb.losses]

theorem Mirrors.withPurchase (hb : b.Mirrors b') (hf : fill.SameValue fill') (hp : p.SameValue p')
    (hc : cash.SameValue cash') :
    (b.withPurchase asset side fill p cash).Mirrors (b'.withPurchase asset side.opposite fill' p' cash') where
  config := hb.config
  clock := hb.clock
  cash := hc
  ledger := hb.ledger.set hp
  trades := by
    have ht := hb.record asset (.buyOf side) hf
    rw [TradeKind.opposite_buyOf] at ht
    exact ht
  actions := congrArg (· + 1) hb.actions
  tradesExecuted := hb.tradesExecuted
  wins := hb.wins
  losses := hb.losses

theorem Mirrors.withSale (hb : b.Mirrors b') (hf : fill.SameValue fill') (hr : rest.SameValue rest')
    (hc : cash.SameValue cash') :
    (b.withSale asset side fill rest cash).Mirrors (b'.withSale asset side.opposite fill' rest' cash') where
  config := hb.config
  clock := hb.clock
  cash := hc
  ledger := hb.ledger.set ((hb.position asset side).withShares hr)
  trades := by
    have ht := hb.record asset (.sellOf side) hf
    rw [TradeKind.opposite_sellOf] at ht
    exact ht
  actions := congrArg (· + 1) hb.actions
  tradesExecuted := congrArg (· + 1) hb.tradesExecuted
  wins := (hb.withExit hf.price (hb.position asset side).averagePrice).wins
  losses := (hb.withExit hf.price (hb.position asset side).averagePrice).losses

end Bookings

section Operations

theorem Reflected.map {α β γ δ : Type} {R : α → β → Prop} {S : γ → δ → Prop} {x : BrokerM β} {g : β → δ} {a : α}
    {c : γ} (h : Reflected R a u (x b')) (hg : ∀ a', R a a' → S c (g a')) : Reflected S c u ((g <$> x) b') := by
  generalize hx : x b' = r at h
  cases h with
  | answered ha hu =>
    rw [run_map_eq_ok_iff.2 ⟨_, hx, rfl⟩]
    exact .answered (hg _ ha) hu
  | unvalued hv hu =>
    rw [run_map_eq_error_iff.2 hx]
    exact .unvalued hv hu

theorem Mirrors.markEquity (hb : b.Mirrors b') (h : Broker.markEquity b = .ok n u) :
    Reflected (fun _ _ => True) () u (discard Broker.markEquity b') := by
  obtain ⟨fall, _, _, rfl⟩ := markEquity_eq_ok_iff.1 h
  cases hm : Broker.markEquity b' with
  | ok n' u' =>
    rw [(run_discard_eq_ok_iff (u := ())).2 ⟨n', hm⟩]
    obtain ⟨fall', _, _, rfl⟩ := markEquity_eq_ok_iff.1 hm
    exact .answered trivial (hb.withExtremes _ _ _ _)
  | error f u' =>
    rw [run_discard_eq_error_iff.2 hm]
    obtain ⟨peak, -, rfl⟩ := state_of_markEquity_error hm
    exact .unvalued hm (hb.withExtremes _ _ _ _)

theorem Mirrors.bookBuy (hb : b.Mirrors b') (hf : fill.SameValue fill')
    (h : Broker.bookBuy asset side fill b = .ok () u) :
    ∃ u', Broker.bookBuy asset side.opposite fill' b' = .ok () u' ∧ u.Mirrors u' := by
  obtain ⟨p, cash, hp, hc, h0, rfl⟩ := bookBuy_eq_ok_iff.1 h
  obtain ⟨p', hp', hpp⟩ := (hb.position asset side).carries_bought hf.shares hf.value p hp
  obtain ⟨cash', hc', hcc⟩ := Decimal.carries_sub hb.cash hf.value cash hc
  have h0' := (Decimal.le_congr (.refl .zero) hcc).1 h0
  exact ⟨_, bookBuy_eq_ok_iff.2 ⟨p', cash', hp', hc', h0', rfl⟩, hb.withPurchase hf hpp hcc⟩

theorem Mirrors.bookSell (hb : b.Mirrors b') (hf : fill.SameValue fill')
    (h : Broker.bookSell asset side fill b = .ok () u) :
    Reflected (fun _ _ => True) () u (Broker.bookSell asset side.opposite fill' b') := by
  obtain ⟨rest, cash, equity, hr, h0, hc, hm⟩ := bookSell_eq_ok_iff.1 h
  obtain ⟨rest', hr', hrr⟩ := Decimal.carries_sub (hb.position asset side).shares hf.shares rest hr
  obtain ⟨cash', hc', hcc⟩ := Decimal.carries_add hb.cash hf.value cash hc
  rw [run_bookSell hr' ((Decimal.le_congr (.refl .zero) hrr).1 h0) hc']
  exact (hb.withSale hf hrr hcc).markEquity hm

theorem Mirrors.buy (hb : b.Mirrors b') (hq : Complementary quote quote')
    (h : Broker.buy asset side quote dollars available b = .ok n u) :
    ∃ n' u', Broker.buy asset side.opposite quote' dollars available b' = .ok n' u' ∧ n.SameValue n' ∧
      u.Mirrors u' := by
  have hp := hb.withPrice asset quote quote'
  obtain ⟨hd, ha, ⟨hnone, rfl, rfl⟩ | ⟨fill, hsome, rfl, hbook⟩⟩ := buy_eq_ok_iff.1 h
  · obtain ⟨_, hnone', hrel⟩ := hp.carries_quoteBuy hq none hnone
    cases hrel
    exact ⟨.zero, _, buy_eq_ok_iff.2 ⟨hd, ha, .inl ⟨hnone', rfl, rfl⟩⟩, .refl .zero, hp⟩
  · obtain ⟨_, hsome', hrel⟩ := hp.carries_quoteBuy hq (some fill) hsome
    obtain @⟨_, fill', hf⟩ := hrel
    obtain ⟨u', hbook', hu⟩ := hp.bookBuy hf hbook
    exact ⟨fill'.shares, u', buy_eq_ok_iff.2 ⟨hd, ha, .inr ⟨fill', hsome', rfl, hbook'⟩⟩, hf.shares, hu⟩

theorem Mirrors.sell (hb : b.Mirrors b') (hq : Complementary quote quote') (hl : limit.SameValue limit')
    (h : Broker.sell asset side quote (some limit) b = .ok n u) :
    Reflected Decimal.SameValue n u (Broker.sell asset side.opposite quote' (some limit') b') := by
  have hp := hb.withPrice asset quote quote'
  obtain ⟨hnone, rfl, rfl⟩ | ⟨fill, hsome, rfl, hbook⟩ := sell_eq_ok_iff.1 h
  · obtain ⟨_, hnone', hrel⟩ := hp.carries_quoteSell hq hl none hnone
    cases hrel
    rw [sell_eq_ok_iff.2 (.inl ⟨hnone', rfl, rfl⟩)]
    exact .answered (.refl .zero) hp
  · obtain ⟨_, hsome', hrel⟩ := hp.carries_quoteSell hq hl (some fill) hsome
    obtain @⟨_, fill', hf⟩ := hrel
    rw [run_sell hsome']
    exact (hp.bookSell hf hbook).map fun _ _ => hf.shares

/-- What an operation does, its image does to the mirrored account. -/
theorem Mirrors.run {op op' : Operation} {r : Option Decimal} (hb : b.Mirrors b') (hm : op.Mirrors op')
    (h : op.run b = .ok r u) : Reflected (Option.Rel Decimal.SameValue) r u (op'.run b') := by
  cases hm with
  | buy hq =>
    obtain ⟨n, hn, rfl⟩ := run_map_eq_ok_iff.1 h
    obtain ⟨n', u', hn', hv, hu⟩ := hb.buy hq hn
    refine Reflected.map ?_ fun _ => .some
    rw [hn']
    exact .answered hv hu
  | sellAll hq =>
    obtain ⟨n, hn, rfl⟩ := run_map_eq_ok_iff.1 h
    obtain ⟨limit, hl, hn⟩ := sellAll_eq_ok_iff.1 hn
    obtain ⟨limit', hl', hll⟩ := hb.carries_cap limit hl
    refine Reflected.map ?_ fun _ => .some
    rw [run_sellAll hl']
    exact hb.sell hq hll hn

end Operations

section Runs

variable {config : BrokerConfig} {visiting visiting' : Visiting} {ops ops' : List Operation}
  {answers : List (Option Decimal)}

theorem Mirrors.new (config : BrokerConfig) (visiting visiting' : Visiting) :
    (new config visiting).Mirrors (new config visiting') := by
  refine ⟨rfl, rfl, .refl _, fun asset side => ?_, .nil, rfl, rfl, rfl, rfl⟩
  have hflat (visiting : Visiting) (side : OutcomeSide) :
      (Broker.new config visiting).ledger.get asset side = .flat := position_new config visiting asset side
  rw [hflat, hflat]
  exact .refl .flat

/-- A run of operations and a run of their images end in the same way, up to a valuation that fails in the second. -/
theorem Mirrors.runs (hb : b.Mirrors b') (hm : List.Forall₂ Operation.Mirrors ops ops')
    (h : ops.mapM Operation.run b = .ok answers u) :
    (∃ answers' u', ops'.mapM Operation.run b' = .ok answers' u' ∧
      List.Forall₂ (Option.Rel Decimal.SameValue) answers answers' ∧ u.Mirrors u') ∨
    ∃ f v', ops'.mapM Operation.run b' = .error f v' ∧ ∃ before rest answered w v, ops = before ++ rest ∧
      before.mapM Operation.run b = .ok answered w ∧ w.Mirrors v' ∧ Broker.markEquity v = .error f v' := by
  induction hm generalizing b b' answers with
  | nil =>
    obtain ⟨rfl, rfl⟩ := run_pure_eq_ok_iff.1 h
    exact .inl ⟨[], b', rfl, .nil, hb⟩
  | @cons op op' ops ops' hop hops ih =>
    rw [List.mapM_cons] at h ⊢
    obtain ⟨r, w, hr, h⟩ := run_bind_eq_ok_iff.1 h
    obtain ⟨rs, _, hrs, h⟩ := run_bind_eq_ok_iff.1 h
    obtain ⟨rfl, rfl⟩ := run_pure_eq_ok_iff.1 h
    -- the first image either answers, and the rest goes on from the mirrored account, or ends the run
    have hstep := hb.run hop hr
    generalize hr' : op'.run b' = res at hstep
    cases hstep with
    | unvalued hv hw =>
      refine .inr ⟨_, _, run_bind_eq_error_iff.2 (.inl hr'), [op], ops, [r], w, _, rfl, ?_, hw, hv⟩
      rw [List.mapM_cons]
      exact run_bind_eq_ok_iff.2 ⟨r, w, hr, rfl⟩
    | @answered r' w' ha hw =>
      obtain ⟨rs', u', hrs', hvs, hu⟩ | ⟨f, v', hrs', before, rest, answered, x, v, rfl, hx, hxv, hv⟩ := ih hw hrs
      · left
        refine ⟨r' :: rs', u', ?_, .cons ha hvs, hu⟩
        exact run_bind_eq_ok_iff.2 ⟨r', w', hr', run_bind_eq_ok_iff.2 ⟨rs', u', hrs', rfl⟩⟩
      · right
        refine ⟨f, v', ?_, op :: before, rest, r :: answered, x, v, rfl, ?_, hxv, hv⟩
        · exact run_bind_eq_error_iff.2 (.inr ⟨r', w', hr', run_bind_eq_error_iff.2 (.inl hrs')⟩)
        · rw [List.mapM_cons]
          exact run_bind_eq_ok_iff.2 ⟨r, w, hr, run_bind_eq_ok_iff.2 ⟨answered, x, hx, rfl⟩⟩

/-- Trading NO mirrors trading YES, in whatever order the two accounts visit their holdings. If the exchanged
operations run through as well, they answer the same numbers and leave the mirrored account; if they do not, then some
of them have left a mirrored account that cannot be valued. -/
theorem mirrored_of_exchanged (hm : List.Forall₂ Operation.Mirrors ops ops')
    (h : ops.mapM Operation.run (Broker.new config visiting) = .ok answers b) :
    (∀ answers' b', ops'.mapM Operation.run (Broker.new config visiting') = .ok answers' b' →
      List.Forall₂ (Option.Rel Decimal.SameValue) answers answers' ∧ b.Mirrors b') ∧
    ∀ f v', ops'.mapM Operation.run (Broker.new config visiting') = .error f v' →
      ∃ before rest answered u v, ops = before ++ rest ∧
        before.mapM Operation.run (Broker.new config visiting) = .ok answered u ∧ u.Mirrors v' ∧
        Broker.markEquity v = .error f v' := by
  obtain ⟨answers', u', hrun, ha, hu⟩ | ⟨f, v', hrun, hv⟩ := (Mirrors.new config visiting visiting').runs hm h
  · rw [hrun]
    constructor
    · rintro _ _ ⟨⟩
      exact ⟨ha, hu⟩
    · rintro _ _ ⟨⟩
  · rw [hrun]
    constructor
    · rintro _ _ ⟨⟩
    · rintro _ _ ⟨⟩
      exact hv

/-- Buys on both sides and a sale that the visible shares cut short, at these quotes. -/
def twoSidedSession (side : OutcomeSide) (first second last : Decimal) : List Operation :=
  [.buy "rain" side first (.lit 33 0) (.lit 500 0), .buy "rain" side.opposite second (.lit 70 0) (.lit 90 0),
    .buy "rain" side second (.lit 20 0) (.lit 500 0), .sellAll "rain" side last (.lit 100 0)]

theorem mirrored_of_twoSidedSession : ∃ answers b answers' b',
    (twoSidedSession .yes (.lit 40 2) (.lit 45 2) (.lit 55 2)).mapM Operation.run (Broker.new .standard .oldestFirst) =
      .ok answers b ∧
    (twoSidedSession .no (.lit 60 2) (.lit 55 2) (.lit 45 2)).mapM Operation.run (Broker.new .standard .oldestFirst) =
      .ok answers' b' ∧
    b.trades.length = 4 ∧ List.Forall₂ (Option.Rel Decimal.SameValue) answers answers' ∧ b.Mirrors b' := by
  have h40 : Complementary (.lit 40 2) (.lit 60 2) := complementary_of_one_sub (by decide) (by decide)
  have h45 : Complementary (.lit 45 2) (.lit 55 2) := complementary_of_one_sub (by decide) (by decide)
  have h55 : Complementary (.lit 55 2) (.lit 45 2) := complementary_of_one_sub (by decide) (by decide)
  have hm : List.Forall₂ Operation.Mirrors (twoSidedSession .yes (.lit 40 2) (.lit 45 2) (.lit 55 2))
      (twoSidedSession .no (.lit 60 2) (.lit 55 2) (.lit 45 2)) :=
    .cons (.buy h40) (.cons (.buy h45) (.cons (.buy h45) (.cons (.sellAll h55) .nil)))
  obtain ⟨answers, b, h⟩ := exists_of_isSome
    (x := (twoSidedSession .yes (.lit 40 2) (.lit 45 2) (.lit 55 2)).mapM Operation.run)
    (s := Broker.new .standard .oldestFirst) (by decide +kernel)
  obtain ⟨answers', b', h'⟩ := exists_of_isSome
    (x := (twoSidedSession .no (.lit 60 2) (.lit 55 2) (.lit 45 2)).mapM Operation.run)
    (s := Broker.new .standard .oldestFirst) (by decide +kernel)
  have hlen : b.trades.length = 4 := by
    rw [← after_of_ok h]
    decide +kernel
  exact ⟨answers, b, answers', b', h, h', hlen, (mirrored_of_exchanged hm h).1 answers' b' h'⟩

/-- Of two mirrored runs that bring the equity to the largest number, one can be valued: on top of the cash, half a
dollar and then a dollar still fit, a dollar and then half a dollar do not. -/
example :
    let start := Broker.new { BrokerConfig.standard with
      startingCash := .lit 79228162514264337593543950335 0, spreadPenalty := .zero } .oldestFirst
    let session (side : OutcomeSide) (last : Decimal) : List Operation :=
      [.buy "rain" side (.lit 5 1) (.lit 5 1) (.lit 1 0), .buy "rain" side.opposite (.lit 5 1) (.lit 1 0) (.lit 2 0),
        .buy "snow" side (.lit 5 1) (.lit 1 0) (.lit 2 0), .sellAll "snow" side last (.lit 2 0)]
    (((session .yes (.lit 99 2)).mapM Operation.run).run' start).isSome = true ∧
      ((session .no (.lit 1 2)).mapM Operation.run).run' start = none := by
  decide +kernel

end Runs
end Broker
end OutcomeMarket

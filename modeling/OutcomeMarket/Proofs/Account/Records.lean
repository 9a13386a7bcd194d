import OutcomeMarket.Proofs.Account.Frame
import OutcomeMarket.Proofs.Account.Stock

/-! What each record of a history can be trusted to say. Whatever is quoted, the spread is never in the trader's favour:
a buy costs its quote at least, up to the highest price, and a sale brings its quote at most, down to the lowest. A
rejection moves nothing, and all records together are an inventory. -/
namespace OutcomeMarket

namespace Trade

/-- A buy on a side that is quoted so: at no less than the quote, up to the highest price, for at most a dollar a
share, free of fees. -/
structure BoughtAt (quoted : Decimal) (t : Trade) : Prop where
  price_pos : .zero < t.price
  price_le : t.price ≤ Broker.maxExecutionPrice
  quoted_le : quoted.min Broker.maxExecutionPrice ≤ t.price
  shares_pos : .zero < t.shares
  value_nonneg : .zero ≤ t.value
  value_le : t.value ≤ t.shares
  fee_eq : t.fee = .zero

/-- A sale on a side that is quoted so: at no more than the quote, down to the lowest price, for what the shares are
worth at that price, free of fees. -/
structure SoldAt (quoted : Decimal) (t : Trade) : Prop where
  le_price : Broker.minExecutionPrice ≤ t.price
  price_le : t.price ≤ quoted.max Broker.minExecutionPrice
  shares_pos : .zero < t.shares
  value_eq : t.shares.mul t.price = .ok t.value
  fee_eq : t.fee = .zero

/-- A record that moves neither shares nor cash. -/
structure MovesNothing (t : Trade) : Prop where
  shares_eq : t.shares = .zero
  value_eq : t.value = .zero
  fee_eq : t.fee = .zero

end Trade

namespace Operation

/-- The asset that an operation trades, and the YES price that is quoted for it. -/
def quote? : Operation → Option (String × Decimal)
  | buy asset _ quote .. | sellAll asset _ quote _ | liquidate asset quote => some (asset, quote)
  | resolve .. | reject .. | setClock _ | setPrice .. | markEquity => none

/-- Whether an operation trades an asset one side of which is quoted so. -/
def Quotes (op : Operation) (asset : String) (side : OutcomeSide) (quoted : Decimal) : Prop :=
  ∃ quote, op.quote? = some (asset, quote) ∧ side.priceFromYes quote = .ok quoted

/-- The records that an operation adds to the history of an account. -/
def records (b : Broker) (op : Operation) : List Trade := (after op.run b).trades.drop b.trades.length

end Operation

/-- A record as the operation that writes it ought to write it. What a settlement may take is for the inventory to
tell. -/
structure Trade.WellFormed (op : Operation) (t : Trade) : Prop where
  bought : ∀ side, t.kind = .buyOf side → ∃ quoted, op.Quotes t.asset side quoted ∧ t.BoughtAt quoted
  sold : ∀ side, t.kind = .sellOf side → ∃ quoted, op.Quotes t.asset side quoted ∧ t.SoldAt quoted
  refused : t.kind.isRejection = true → t.MovesNothing

section WellFormed

variable {op : Operation} {t : Trade} {side : OutcomeSide} {quoted : Decimal}

theorem wellFormed_buyOf (hk : t.kind = .buyOf side) (hq : op.Quotes t.asset side quoted) (hb : t.BoughtAt quoted) :
    t.WellFormed op := by
  have hs : t.kind.side? = some side := hk ▸ TradeKind.side?_buyOf side
  refine ⟨fun s h => ?_, fun s h => ?_, fun h => absurd hs (TradeKind.side?_ne_of_isRejection h side)⟩
  · rw [h, TradeKind.side?_buyOf] at hs
    cases hs
    exact ⟨quoted, hq, hb⟩
  · exact absurd (h.symm.trans hk) (TradeKind.sellOf_ne_buyOf s side)

theorem wellFormed_sellOf (hk : t.kind = .sellOf side) (hq : op.Quotes t.asset side quoted) (hb : t.SoldAt quoted) :
    t.WellFormed op := by
  have hs : t.kind.side? = some side := hk ▸ TradeKind.side?_sellOf side
  refine ⟨fun s h => ?_, fun s h => ?_, fun h => absurd hs (TradeKind.side?_ne_of_isRejection h side)⟩
  · exact absurd (hk.symm.trans h) (TradeKind.sellOf_ne_buyOf side s)
  · rw [h, TradeKind.side?_sellOf] at hs
    cases hs
    exact ⟨quoted, hq, hb⟩

theorem wellFormed_resolveOf (hk : t.kind = .resolveOf side) : t.WellFormed op := by
  have hs : t.kind.side? = some side := hk ▸ TradeKind.side?_resolveOf side
  refine ⟨fun s h => ?_, fun s h => ?_, fun h => absurd hs (TradeKind.side?_ne_of_isRejection h side)⟩
  · exact absurd (hk.symm.trans h) (TradeKind.resolveOf_ne_buyOf side s)
  · exact absurd (hk.symm.trans h) (TradeKind.resolveOf_ne_sellOf side s)

theorem wellFormed_rejection (hk : t.kind.isRejection = true) (ht : t.MovesNothing) : t.WellFormed op := by
  have hs := TradeKind.side?_ne_of_isRejection hk
  refine ⟨fun s h => ?_, fun s h => ?_, fun _ => ht⟩
  · exact absurd (TradeKind.side?_buyOf s) (h ▸ hs s)
  · exact absurd (TradeKind.side?_sellOf s) (h ▸ hs s)

end WellFormed

namespace Broker

/-- The records that a run adds to the history of an account, operation by operation. -/
def runRecords (b : Broker) : List Operation → List (List Trade)
  | [] => []
  | op :: ops => op.records b :: runRecords (after op.run b) ops

/-- Between the two accounts some records were added, all of this form. -/
def Adds (form : Trade → Prop) (b b' : Broker) : Prop := ∃ ts, b'.trades = b.trades ++ ts ∧ ∀ t ∈ ts, form t

variable {form : Trade → Prop} {b b' u : Broker} {asset : String} {side : OutcomeSide} {fill : Fill} {t : Trade}
  {quote dollars available price outcome n : Decimal} {limit : Option Decimal} {op : Operation}

theorem Adds.of_eq (h : b'.trades = b.trades) : Adds form b b' :=
  ⟨[], h.trans (List.append_nil _).symm, by simp⟩

theorem Adds.single (h : b'.trades = b.trades ++ [t]) (ht : form t) : Adds form b b' :=
  ⟨[t], h, by simpa using ht⟩

theorem Adds.trans (h : Adds form b u) (h' : Adds form u b') : Adds form b b' := by
  obtain ⟨ts, ht, hs⟩ := h
  obtain ⟨us, hu, hs'⟩ := h'
  refine ⟨ts ++ us, by rw [hu, ht, List.append_assoc], fun t hm => ?_⟩
  exact (List.mem_append.1 hm).elim (hs t) (hs' t)

/-- The penalty makes a buy dearer, up to the highest price. -/
theorem buyPrice_bounds (hv : b.config.Valid) (h : b.buyPrice side quote = .ok price) :
    ∃ quoted, side.priceFromYes quote = .ok quoted ∧ quoted.min maxExecutionPrice ≤ price ∧
      price ≤ maxExecutionPrice := by
  simp only [buyPrice, OutcomeMarket.bind_eq_ok_iff, pure_eq_ok_iff] at h
  obtain ⟨quoted, hq, penalised, hp, rfl⟩ := h
  have hle : quoted ≤ penalised := Decimal.le_add_right hv.penalty_nonneg hp
  refine ⟨quoted, hq, ?_, Decimal.min_le_right _ _⟩
  exact Decimal.le_min (Decimal.le_trans (Decimal.min_le_left _ _) hle) (Decimal.min_le_right _ _)

/-- The penalty makes a sale cheaper, down to the lowest price. -/
theorem sellPrice_bounds (hv : b.config.Valid) (h : b.sellPrice side quote = .ok price) :
    ∃ quoted, side.priceFromYes quote = .ok quoted ∧ minExecutionPrice ≤ price ∧
      price ≤ quoted.max minExecutionPrice := by
  simp only [sellPrice, OutcomeMarket.bind_eq_ok_iff, pure_eq_ok_iff] at h
  obtain ⟨quoted, hq, penalised, hp, rfl⟩ := h
  have hle : penalised ≤ quoted := Decimal.sub_le_left hv.penalty_nonneg hp
  refine ⟨quoted, hq, Decimal.le_max_right _ _, ?_⟩
  exact Decimal.max_le (Decimal.le_trans hle (Decimal.le_max_left _ _)) (Decimal.le_max_right _ _)

theorem wellFormed_of_quoteBuy (hv : b.config.Valid) (ho : op.quote? = some (asset, quote)) (time : Instant)
    (h : b.quoteBuy side quote dollars available = .ok (some fill)) :
    Trade.WellFormed op ⟨asset, time, .buyOf side, fill.price, fill.shares, fill.value, .zero⟩ := by
  obtain ⟨-, -, hp, hpos, hs, -⟩ := quoteBuy_eq_some h
  obtain ⟨h0, hle, -⟩ := quoteBuy_value h
  obtain ⟨quoted, hq, hmin, hmax⟩ := buyPrice_bounds hv hp
  exact wellFormed_buyOf rfl ⟨quote, ho, hq⟩ ⟨hpos, hmax, hmin, hs, h0, hle, rfl⟩

theorem wellFormed_of_quoteSell (hv : b.config.Valid) (ho : op.quote? = some (asset, quote)) (time : Instant)
    (h : b.quoteSell asset side quote limit = .ok (some fill)) :
    Trade.WellFormed op ⟨asset, time, .sellOf side, fill.price, fill.shares, fill.value, .zero⟩ := by
  obtain ⟨hp, hs, -, hw⟩ := quoteSell_eq_some h
  obtain ⟨quoted, hq, hmin, hmax⟩ := sellPrice_bounds hv hp
  exact wellFormed_sellOf rfl ⟨quote, ho, hq⟩ ⟨hmin, hmax, hs, hw, rfl⟩

theorem adds_of_buy (hv : b.config.Valid) (ho : op.quote? = some (asset, quote))
    (h : buy asset side quote dollars available b = .ok n b') : Adds (·.WellFormed op) b b' := by
  obtain rfl | ⟨fill, hq, hb⟩ := buy_eq_ok h
  · exact .of_eq rfl
  · have hv : (b.withPrice asset quote).config.Valid := hv
    obtain ⟨p, cash, -, -, -, rfl⟩ := bookBuy_eq_ok_iff.1 hb
    exact .single rfl (wellFormed_of_quoteBuy hv ho b.clock hq)

theorem adds_of_sell (hv : b.config.Valid) (ho : op.quote? = some (asset, quote))
    (h : sell asset side quote limit b = .ok n b') : Adds (·.WellFormed op) b b' := by
  obtain rfl | ⟨fill, hq, hb⟩ := sell_eq_ok h
  · exact .of_eq rfl
  · have hv : (b.withPrice asset quote).config.Valid := hv
    obtain ⟨rest, cash, equity, -, -, -, hm⟩ := bookSell_eq_ok_iff.1 hb
    exact .single (sameBooks_of_markEquity hm).trades (wellFormed_of_quoteSell hv ho b.clock hq)

theorem adds_of_resolveSide {r : Option Decimal} (h : resolveSide asset outcome side b = .ok r b') :
    Adds (·.WellFormed op) b b' := by
  obtain ⟨-, -, rfl⟩ | ⟨price, net, fee, cash, -, -, -, -, -, rfl⟩ := resolveSide_eq_ok h
  · exact .of_eq rfl
  · exact .single rfl (wellFormed_resolveOf rfl)

theorem adds_of_resolve (h : resolve asset outcome b = .ok n b') : Adds (·.WellFormed op) b b' := by
  obtain ⟨yes, u, no, v, hy, hn, hv⟩ := resolve_eq_ok h
  have hp : Adds (·.WellFormed op) b (b.withPrice asset outcome) := .of_eq rfl
  have hs : Adds (·.WellFormed op) b v := (hp.trans (adds_of_resolveSide hy)).trans (adds_of_resolveSide hn)
  obtain ⟨-, -, rfl⟩ | ⟨-, equity, hm⟩ := hv
  · exact hs
  · exact hs.trans (.of_eq (sameBooks_of_markEquity hm).trades)

/-- Every record that an operation adds is well-formed by its quote. -/
theorem adds_of_run {r : Option Decimal} (hv : b.config.Valid) (h : op.run b = .ok r b') :
    Adds (·.WellFormed op) b b' := by
  cases op with
  | buy asset side quote dollars available =>
    obtain ⟨n, hb, -⟩ := run_map_eq_ok_iff.1 h
    exact adds_of_buy hv rfl hb
  | sellAll asset side quote available =>
    obtain ⟨n, hs, -⟩ := run_map_eq_ok_iff.1 h
    obtain ⟨limit, -, hs⟩ := sellAll_eq_ok_iff.1 hs
    exact adds_of_sell hv rfl hs
  | liquidate asset quote =>
    obtain ⟨n, hl, -⟩ := run_map_eq_ok_iff.1 h
    obtain ⟨yes, u, no, hy, hn⟩ := liquidate_eq_ok hl
    have hf : Frame (fun _ => True) (fun _ => True) b u := frame_of_sell trivial trivial hy
    have hu : u.config.Valid := hf.config ▸ hv
    exact (adds_of_sell hv rfl hy).trans (adds_of_sell hu rfl hn)
  | resolve asset outcome =>
    obtain ⟨n, hr, -⟩ := run_map_eq_ok_iff.1 h
    exact adds_of_resolve hr
  | reject asset kind price =>
    obtain ⟨_, u, hr, hu⟩ := run_bind_eq_ok_iff.1 h
    obtain ⟨hk, rfl⟩ := reject_eq_ok hr
    obtain ⟨-, rfl⟩ := run_pure_eq_ok_iff.1 hu
    exact .single rfl (wellFormed_rejection hk ⟨rfl, rfl, rfl⟩)
  | setClock now =>
    obtain ⟨-, rfl⟩ := run_pure_eq_ok_iff.1 h
    exact .of_eq rfl
  | setPrice asset price =>
    obtain ⟨-, rfl⟩ := run_pure_eq_ok_iff.1 h
    exact .of_eq rfl
  | markEquity =>
    obtain ⟨n, hm, -⟩ := run_map_eq_ok_iff.1 h
    exact .of_eq (sameBooks_of_markEquity hm).trades

theorem records_of_run {r : Option Decimal} (hv : b.config.Valid) (h : op.run b = .ok r b') :
    b'.trades = b.trades ++ op.records b ∧ ∀ t ∈ op.records b, t.WellFormed op := by
  obtain ⟨ts, ht, hs⟩ := adds_of_run hv h
  have hr : op.records b = ts := by
    rw [Operation.records, after_of_ok h, ht, List.drop_left]
  rw [hr]
  exact ⟨ht, hs⟩

/-- The history that a run adds, operation by operation. -/
theorem runRecords_of_runAll {ops : List Operation} (hv : b.config.Valid) (h : b.runAll ops = .ok b') :
    b'.trades = b.trades ++ (b.runRecords ops).flatten ∧
      List.Forall₂ (fun op ts => ∀ t ∈ ts, t.WellFormed op) ops (b.runRecords ops) := by
  refine runAll_induction (motive := fun b ops b' => b.config.Valid →
    b'.trades = b.trades ++ (b.runRecords ops).flatten ∧
      List.Forall₂ (fun op ts => ∀ t ∈ ts, t.WellFormed op) ops (b.runRecords ops)) ?_ ?_ h hv
  · exact fun b _ => ⟨(List.append_nil _).symm, .nil⟩
  · intro b op ops r u b' hu _ ih hv
    obtain ⟨ht, hs⟩ := records_of_run hv hu
    obtain ⟨ht', hs'⟩ := ih ((unshorted_of_run hu).2 ▸ hv)
    rw [runRecords, after_of_ok hu]
    refine ⟨?_, .cons hs hs'⟩
    rw [ht', ht, List.flatten_cons, List.append_assoc]

/-- The history of a run: what its operations wrote, in their order, each record well-formed by the quote of its
operation; and an inventory. -/
structure WellKept (config : BrokerConfig) (visiting : Visiting) (ops : List Operation) (b : Broker) : Prop
    extends b.Stocked where
  written : b.trades = ((new config visiting).runRecords ops).flatten
  formed : List.Forall₂ (fun op ts => ∀ t ∈ ts, t.WellFormed op) ops ((new config visiting).runRecords ops)

/-- Whatever is quoted and at whatever outcome markets are settled, every run keeps its history well. -/
theorem wellKept_of_runAll {config : BrokerConfig} {visiting : Visiting} {ops : List Operation} {b : Broker}
    (hv : config.validate = .ok ()) (h : (new config visiting).runAll ops = .ok b) :
    WellKept config visiting ops b := by
  obtain ⟨hw, hf⟩ := runRecords_of_runAll (BrokerConfig.validate_eq_ok_iff.1 hv) h
  exact ⟨(stocked_new config visiting).runAll (SoundPositions.new config visiting) h, hw, hf⟩

/-- YES is quoted below nothing and above a dollar, sold in part, liquidated, refused, bought again and settled. -/
def wildQuotes : List Operation :=
  [.buy "rain" .yes (Decimal.lit 5 3).neg (.lit 100 0) (.lit 500 0),
    .buy "rain" .no (Decimal.lit 2 1).neg (.lit 99 0) (.lit 60 0), .sellAll "rain" .yes (.lit 17 1) (.lit 120 0),
    .liquidate "rain" (Decimal.lit 3 1).neg, .reject "rain" .rejectBuy (.lit 7 0),
    .buy "rain" .yes (.lit 50 2) (.lit 20 0) (.lit 40 0), .resolve "rain" .one]

theorem wellKept_of_wildQuotes : ∃ b, (new .standard .oldestFirst).runAll wildQuotes = .ok b ∧
    WellKept .standard .oldestFirst wildQuotes b := by
  obtain ⟨b, hb⟩ := exists_of_isOk (x := (new .standard .oldestFirst).runAll wildQuotes) (by decide +kernel)
  exact ⟨b, hb, wellKept_of_runAll rfl hb⟩

/-- What each of its operations wrote. -/
example : ((new .standard .oldestFirst).runRecords wildQuotes).map (·.map (·.kind)) =
    [[.buy], [.buyNo], [.sell], [.sell, .sellNo], [.rejectBuy], [.buy], [.resolveYes]] := by decide +kernel

end Broker
end OutcomeMarket

import OutcomeMarket.Proofs.Account.Extremes
import OutcomeMarket.Proofs.Account.Replay
import OutcomeMarket.Proofs.Account.RoundTrip
import OutcomeMarket.Proofs.TextMap

/-! The books of an account that has been closed. Cash and counters can be read off the records alone; once no holding
is left, cash is all that the account is worth. -/
namespace OutcomeMarket

namespace TradeKind

/-- Buys and sales. -/
def isAction (k : TradeKind) : Bool := k.isBuy || k.isSell

/-- Sales and settlements: what ends as a win or a loss. -/
def isExit (k : TradeKind) : Bool := k.isSell || k.isResolution

theorem classes_buyOf (side : OutcomeSide) :
    (buyOf side).isBuy = true ∧ (buyOf side).isAction = true ∧ (buyOf side).isExit = false := by
  cases side <;> decide

theorem classes_sellOf (side : OutcomeSide) :
    (sellOf side).isBuy = false ∧ (sellOf side).isAction = true ∧ (sellOf side).isExit = true := by
  cases side <;> decide

theorem classes_resolveOf (side : OutcomeSide) :
    (resolveOf side).isBuy = false ∧ (resolveOf side).isAction = false ∧ (resolveOf side).isExit = true := by
  cases side <;> decide

theorem classes_of_rejection {k : TradeKind} (h : k.isRejection = true) :
    k.isBuy = false ∧ k.isAction = false ∧ k.isExit = false := by
  cases k <;> revert h <;> decide

theorem exists_side_or_isRejection (k : TradeKind) : (∃ side, k = buyOf side) ∨ (∃ side, k = sellOf side) ∨
    (∃ side, k = resolveOf side) ∨ k.isRejection = true := by
  cases k with
  | buy => exact .inl ⟨.yes, rfl⟩
  | buyNo => exact .inl ⟨.no, rfl⟩
  | sell => exact .inr (.inl ⟨.yes, rfl⟩)
  | sellNo => exact .inr (.inl ⟨.no, rfl⟩)
  | resolveYes => exact .inr (.inr (.inl ⟨.yes, rfl⟩))
  | resolveNo => exact .inr (.inr (.inl ⟨.no, rfl⟩))
  | rejectBuy | rejectSell => exact .inr (.inr (.inr rfl))

end TradeKind

/-- Cash with one more record in the books: a buy takes its value, a sale or a settlement brings it. -/
def Trade.book (cash : Decimal) (t : Trade) : Decimal.Checked Decimal :=
  if t.kind.isBuy then cash.sub t.value
  else if t.kind.isExit then cash.add t.value
  else .ok cash

/-- Cash after these records, oldest first. -/
def cashAfter (cash : Decimal) (ts : List Trade) : Decimal.Checked Decimal := ts.foldlM Trade.book cash

namespace Statement

/-- From one statement to another cash and counters move as so many records say. -/
structure Tallies (s s' : Statement) (ts : List Trade) : Prop where
  cash : cashAfter s.cash ts = .ok s'.cash
  actions : s'.actions = s.actions + ts.countP (·.kind.isAction)
  exits : s'.wins + s'.losses = s.wins + s.losses + ts.countP (·.kind.isExit)

variable {s s' u : Statement} {t : Trade} {ts : List Trade}

theorem Tallies.nil (s : Statement) : Tallies s s [] := ⟨rfl, rfl, rfl⟩

theorem Tallies.cons (h : Tallies s u [t]) (hs : Tallies u s' ts) : Tallies s s' (t :: ts) := by
  have hcons : t :: ts = [t] ++ ts := rfl
  refine ⟨?_, ?_, ?_⟩
  · have hc := h.cash
    rw [hcons, cashAfter, List.foldlM_append]
    unfold cashAfter at hc
    rw [hc]
    exact hs.cash
  · rw [hs.actions, h.actions, hcons, List.countP_append, Nat.add_assoc]
  · rw [hs.exits, h.exits, hcons, List.countP_append, Nat.add_assoc]

theorem tallies_single (hc : t.book s.cash = .ok s'.cash)
    (ha : s'.actions = s.actions + if t.kind.isAction then 1 else 0)
    (hx : s'.wins + s'.losses = s.wins + s.losses + if t.kind.isExit then 1 else 0) : Tallies s s' [t] := by
  refine ⟨?_, ?_, ?_⟩
  · unfold cashAfter
    rw [List.foldlM_cons, hc]
    rfl
  · rw [ha, List.countP_singleton]
  · rw [hx, List.countP_singleton]

/-- An exit is a win or a loss. -/
theorem exits_exit (s : Statement) (price entry : Decimal) :
    (s.exit price entry).wins + (s.exit price entry).losses = s.wins + s.losses + 1 := by
  unfold exit
  dsimp only
  split <;> omega

theorem tallies_of_post (h : s.post t = .ok s') : Tallies s s' [t] := by
  obtain ⟨side, hk⟩ | ⟨side, hk⟩ | ⟨side, hk⟩ | hk := t.kind.exists_side_or_isRejection
  · obtain ⟨hbuy, haction, hexit⟩ := hk ▸ TradeKind.classes_buyOf side
    rw [post_buyOf hk] at h
    simp only [postBuy, bind_eq_ok_iff, pure_eq_ok_iff] at h
    obtain ⟨cash, hc, shares, -, basis, -, cost, -, average, -, rfl⟩ := h
    apply tallies_single
    · rw [Trade.book, if_pos hbuy]
      exact hc
    · rw [haction]
      rfl
    · rw [hexit]
      rfl
  · obtain ⟨hbuy, haction, hexit⟩ := hk ▸ TradeKind.classes_sellOf side
    rw [post_sellOf hk] at h
    simp only [postSell, bind_eq_ok_iff, pure_eq_ok_iff] at h
    obtain ⟨cash, hc, rest, -, rfl⟩ := h
    apply tallies_single
    · rw [Trade.book, hbuy, hexit]
      exact hc
    · rw [haction]
      rfl
    · rw [hexit]
      exact exits_exit s _ _
  · obtain ⟨hbuy, haction, hexit⟩ := hk ▸ TradeKind.classes_resolveOf side
    rw [post_resolveOf hk] at h
    simp only [postSettlement, bind_eq_ok_iff, pure_eq_ok_iff] at h
    obtain ⟨cash, hc, rfl⟩ := h
    apply tallies_single
    · rw [Trade.book, hbuy, hexit]
      exact hc
    · rw [haction]
      rfl
    · rw [hexit]
      exact exits_exit s _ _
  · obtain ⟨hbuy, haction, hexit⟩ := TradeKind.classes_of_rejection hk
    rw [post_rejection hk] at h
    cases h
    apply tallies_single
    · rw [Trade.book, hbuy, hexit]
      rfl
    · rw [haction]
      rfl
    · rw [hexit]
      rfl

/-- What a statement comes to in cash and counters can be told without the holdings. -/
theorem tallies_of_replay (h : s.replay ts = .ok s') : Tallies s s' ts := by
  induction ts generalizing s with
  | nil =>
    cases h
    exact .nil _
  | cons t ts ih =>
    unfold replay at h
    rw [List.foldlM_cons] at h
    obtain ⟨u, hu, h⟩ := bind_eq_ok_iff.1 h
    exact (tallies_of_post hu).cons (ih h)

end Statement

theorem Ledger.pair_of_mem {l : Ledger} {e : String × PositionPair} (he : e ∈ l.pairs.entries) : l.pair e.1 = e.2 := by
  unfold pair TextMap.find?
  rw [TextMap.lookup_of_mem l.pairs.nodup he]
  rfl

namespace Broker

/-- Nothing is held on either side of an asset. -/
def Flat (b : Broker) (asset : String) : Prop := ∀ side, (b.position asset side).isFlat = true

variable {b b' : Broker} {asset : String} {side : OutcomeSide} {quote outcome n : Decimal} {limit : Option Decimal}

theorem isFlat_of_le_zero {p : Position} (h0 : .zero ≤ p.shares) (h : p.shares ≤ .zero) : p.isFlat = true :=
  Decimal.isZero_of_le_zero h0 h

theorem addHolding_of_flat {pair : PositionPair} (last : Option Decimal) (v : Decimal) (hy : pair.yes.isFlat = true)
    (hn : pair.no.isFlat = true) : addHolding last v pair = .ok v := by
  unfold addHolding
  rw [if_pos hy, pure_bind]
  exact if_pos hn

/-- Flat holdings are worth nothing, whatever the prices. -/
theorem foldlM_addHolding {es : List (String × PositionPair)} (prices : TextMap Decimal) (cash : Decimal)
    (h : ∀ e ∈ es, e.2.yes.isFlat = true ∧ e.2.no.isFlat = true) :
    es.foldlM (fun v e => addHolding (prices.find? e.1) v e.2) cash = (.ok cash : Decimal.Checked Decimal) := by
  induction es with
  | nil => rfl
  | cons e es ih =>
    obtain ⟨hy, hn⟩ := h e List.mem_cons_self
    rw [List.foldlM_cons, addHolding_of_flat _ cash hy hn]
    exact ih fun e he => h e (List.mem_cons_of_mem _ he)

theorem Flat.of_mem {e : String × PositionPair} (h : b.Flat e.1) (he : e ∈ b.ledger.pairs.entries) :
    e.2.yes.isFlat = true ∧ e.2.no.isFlat = true := by
  unfold Flat position Ledger.get at h
  rw [Ledger.pair_of_mem he] at h
  exact ⟨h .yes, h .no⟩

theorem value_of_flat (h : ∀ asset, b.Flat asset) : b.value = .ok b.cash :=
  foldlM_addHolding b.prices b.cash fun e he => (h e.1).of_mem (Visiting.mem_order.1 he)

/-- Without a limit a sale leaves nothing. -/
theorem isFlat_of_sell (h0 : b.Unshorted) (h : sell asset side quote none b = .ok n b') :
    (b'.position asset side).isFlat = true := by
  obtain ⟨hq, -, rfl⟩ | ⟨fill, hq, -, hb⟩ := sell_eq_ok_iff.1 h
  · by_contra hn
    -- with shares to sell there would be a fill
    have hpos : ¬ ((b.withPrice asset quote).position asset side).shares ≤ .zero :=
      fun hle => hn (isFlat_of_le_zero (h0 asset side) hle)
    unfold quoteSell at hq
    dsimp only at hq
    rw [if_neg hpos] at hq
    obtain ⟨price, -, hq⟩ := OutcomeMarket.bind_eq_ok_iff.1 hq
    rw [if_neg hpos] at hq
    obtain ⟨value, -, hq⟩ := OutcomeMarket.bind_eq_ok_iff.1 hq
    cases hq
  · obtain ⟨-, -, hshares, -⟩ := quoteSell_worth hq
    obtain ⟨rest, hr, hpos⟩ := position_of_bookSell hb
    rw [hshares] at hr
    have hzero : rest.toRat = 0 := by
      have hround := Decimal.rounds_sub hr
      rw [Option.elim_none, sub_self, ← Decimal.toRat_zero] at hround
      rw [hround.eq_toRat, Decimal.toRat_zero]
    rw [hpos]
    exact Decimal.isZero_iff_toRat.2 hzero

theorem flat_of_liquidate (h0 : b.Unshorted) (h : liquidate asset quote b = .ok n b') : b'.Flat asset := by
  obtain ⟨yes, u, no, hy, hn⟩ := liquidate_eq_ok h
  have hframe : Frame (fun _ => True) (fun _ => True) b u := frame_of_sell trivial trivial hy
  have hu : u.Unshorted := hframe.unshorted h0
  intro side
  cases side with
  | yes =>
    rw [position_of_sell (.inr (by decide)) hn]
    exact isFlat_of_sell h0 hy
  | no => exact isFlat_of_sell hu hn

theorem isFlat_of_resolveSide {r : Option Decimal} (h0 : b.Unshorted)
    (h : resolveSide asset outcome side b = .ok r b') : (b'.position asset side).isFlat = true := by
  obtain ⟨hle, -, rfl⟩ | ⟨price, net, fee, cash, -, -, -, -, -, rfl⟩ := resolveSide_eq_ok h
  · exact isFlat_of_le_zero (h0 asset side) hle
  · rw [position_withSettlement]
    rfl

theorem flat_of_resolve (h0 : b.Unshorted) (h : resolve asset outcome b = .ok n b') : b'.Flat asset := by
  obtain ⟨yes, u, no, v, hy, hn, hv⟩ := resolve_eq_ok h
  have h0 : (b.withPrice asset outcome).Unshorted := h0
  have hframe : Frame (fun _ => True) (fun _ => True) (b.withPrice asset outcome) u := frame_of_resolveSide trivial hy
  have hu : u.Unshorted := hframe.unshorted h0
  obtain ⟨-, -, hother⟩ := resolveSide_frame hn
  have hflat : v.Flat asset := by
    intro side
    cases side with
    | yes =>
      rw [show v.position asset .yes = u.position asset .yes from hother]
      exact isFlat_of_resolveSide h0 hy
    | no => exact isFlat_of_resolveSide hu hn
  obtain ⟨-, -, rfl⟩ | ⟨-, equity, hm⟩ := hv
  · exact hflat
  · intro side
    rw [(sameBooks_of_markEquity hm).position_eq]
    exact hflat side

end Broker
end OutcomeMarket

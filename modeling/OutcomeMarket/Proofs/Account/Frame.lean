import OutcomeMarket.Proofs.Account.Step

/-! What the operations of an account leave alone. An operation changes the holdings of the assets that it trades and
the prices that it quotes, dates its records by the clock, and takes shares away only as far as there are any. -/
namespace OutcomeMarket

/-- Whether an operation trades only such assets, quotes only such prices, and lets the clock be. -/
def Operation.Within (trades : String → Prop) (quotes : Decimal → Prop) : Operation → Prop
  | buy asset _ quote .. | sellAll asset _ quote _ | liquidate asset quote | resolve asset quote =>
    trades asset ∧ quotes quote
  | setPrice _ price => quotes price
  | setClock _ => False
  | reject .. | markEquity => True

/-- Whether an operation leaves the holding on this side alone. -/
def Operation.Spares (asset : String) (side : OutcomeSide) : Operation → Prop
  | buy other t .. | sellAll other t .. => asset ≠ other ∨ side ≠ t
  | liquidate other _ | resolve other _ => asset ≠ other
  | reject .. | setClock _ | setPrice .. | markEquity => True

instance (asset : String) (side : OutcomeSide) : DecidablePred (Operation.Spares asset side)
  | .buy other t .. | .sellAll other t .. => inferInstanceAs (Decidable (asset ≠ other ∨ side ≠ t))
  | .liquidate other _ | .resolve other _ => inferInstanceAs (Decidable (asset ≠ other))
  | .reject .. | .setClock _ | .setPrice .. | .markEquity => inferInstanceAs (Decidable True)

namespace Broker

/-- No holding has less than no shares. -/
def Unshorted (b : Broker) : Prop := ∀ asset side, .zero ≤ (b.position asset side).shares

/-- From one account to another only such assets were traded and such prices quoted, and the time is the same. -/
structure Frame (trades : String → Prop) (quotes : Decimal → Prop) (b b' : Broker) : Prop where
  config : b'.config = b.config
  clock : b'.clock = b.clock
  position : ∀ asset, ¬ trades asset → ∀ side, b'.position asset side = b.position asset side
  price : ∀ asset p, b'.lastKnownPrice asset = some p → b.lastKnownPrice asset = some p ∨ quotes p
  dated : ∃ ts, b'.trades = b.trades ++ ts ∧ ∀ t ∈ ts, t.time = b.clock
  unshorted : b.Unshorted → b'.Unshorted

variable {trades : String → Prop} {quotes : Decimal → Prop} {b b' u : Broker} {asset other : String}
  {side t : OutcomeSide}
  {fill : Fill} {p : Position} {quote dollars available price outcome cash rest n : Decimal}
  {limit : Option Decimal} {op : Operation}

theorem Frame.refl (b : Broker) : Frame trades quotes b b :=
  ⟨rfl, rfl, fun _ _ _ => rfl, fun _ _ h => .inl h, ⟨[], (List.append_nil _).symm, by simp⟩, id⟩

theorem Frame.trans (h : Frame trades quotes b u) (h' : Frame trades quotes u b') : Frame trades quotes b b' := by
  refine ⟨h'.config.trans h.config, h'.clock.trans h.clock,
    fun asset ha side => (h'.position asset ha side).trans (h.position asset ha side), fun asset p hp => ?_, ?_,
    h'.unshorted ∘ h.unshorted⟩
  · obtain hp | hp := h'.price asset p hp
    · exact h.price asset p hp
    · exact .inr hp
  · obtain ⟨ts, ht, hs⟩ := h.dated
    obtain ⟨us, hu, hs'⟩ := h'.dated
    refine ⟨ts ++ us, by rw [hu, ht, List.append_assoc], fun t hm => ?_⟩
    obtain hm | hm := List.mem_append.1 hm
    · exact hs t hm
    · exact (hs' t hm).trans h.clock

/-- A change that no part of the frame looks at. -/
theorem Frame.of_eq (hv : b'.config = b.config) (hc : b'.clock = b.clock) (hl : b'.ledger = b.ledger)
    (hp : b'.prices = b.prices) (ht : b'.trades = b.trades) : Frame trades quotes b b' := by
  refine ⟨hv, hc, fun asset _ side => ?_, fun asset p h => .inl ?_, ⟨[], ?_, by simp⟩, fun h asset side => ?_⟩
  · rw [Broker.position, hl]
    rfl
  · rwa [lastKnownPrice, hp] at h
  · rw [ht, List.append_nil]
  · rw [Broker.position, hl]
    exact h asset side

theorem frame_withPrice (hq : quotes quote) (b : Broker) (asset : String) :
    Frame trades quotes b (b.withPrice asset quote) := by
  refine ⟨rfl, rfl, fun _ _ _ => rfl, fun other p hp => ?_, ⟨[], (List.append_nil _).symm, by simp⟩, id⟩
  have hp : (b.prices.insert asset quote).find? other = some p := hp
  rw [TextMap.find?_insert] at hp
  split at hp
  · cases hp
    exact .inr hq
  · exact .inl hp

/-- A record about one holding of a traded asset, which is written anew. -/
theorem frame_written {t : Trade} (ha : trades asset) (hv : b'.config = b.config) (hc : b'.clock = b.clock)
    (hl : b'.ledger = b.ledger.set asset side p) (hp : b'.prices = b.prices) (ht : b'.trades = b.trades ++ [t])
    (hd : t.time = b.clock) (h0 : b.Unshorted → .zero ≤ p.shares) : Frame trades quotes b b' := by
  have hpos := position_of_set hl
  refine ⟨hv, hc, fun other hn s => ?_, fun other q h => .inl ?_, ⟨[t], ht, ?_⟩, fun h other s => ?_⟩
  · rw [hpos, if_neg]
    rintro ⟨rfl, -⟩
    exact hn ha
  · rwa [lastKnownPrice, hp] at h
  · intro t' hm
    rw [List.mem_singleton.1 hm]
    exact hd
  · rw [hpos]
    split
    · exact h0 h
    · exact h other s

theorem frame_of_markEquity (h : markEquity b = .ok n b') : Frame trades quotes b b' := by
  obtain ⟨fall, -, -, rfl⟩ := markEquity_eq_ok_iff.1 h
  exact .of_eq rfl rfl rfl rfl rfl

theorem frame_of_buy (ha : trades asset) (hq : quotes quote)
    (h : buy asset side quote dollars available b = .ok n b') : Frame trades quotes b b' := by
  have hn : Frame trades quotes b (b.withPrice asset quote) := frame_withPrice hq b asset
  obtain rfl | ⟨fill, -, hb⟩ := buy_eq_ok h
  · exact hn
  · obtain ⟨p, cash, hp, -, -, rfl⟩ := bookBuy_eq_ok_iff.1 hb
    exact hn.trans (frame_written ha rfl rfl rfl rfl rfl rfl fun h0 =>
      Decimal.le_of_lt (shares_pos_of_bought (h0 asset side) hp))

theorem frame_of_sell (ha : trades asset) (hq : quotes quote) (h : sell asset side quote limit b = .ok n b') :
    Frame trades quotes b b' := by
  have hn : Frame trades quotes b (b.withPrice asset quote) := frame_withPrice hq b asset
  obtain rfl | ⟨fill, -, hb⟩ := sell_eq_ok h
  · exact hn
  · obtain ⟨rest, cash, equity, -, h0, -, hm⟩ := bookSell_eq_ok_iff.1 hb
    have hs : Frame trades quotes (b.withPrice asset quote)
        ((b.withPrice asset quote).withSale asset side fill rest cash) :=
      frame_written ha rfl rfl rfl rfl rfl rfl fun _ => h0
    exact (hn.trans hs).trans (frame_of_markEquity hm)

theorem frame_of_resolveSide {r : Option Decimal} (ha : trades asset)
    (h : resolveSide asset outcome side b = .ok r b') : Frame trades quotes b b' := by
  obtain ⟨-, -, rfl⟩ | ⟨price, net, fee, cash, -, -, -, -, -, rfl⟩ := resolveSide_eq_ok h
  · exact .refl b'
  · exact frame_written ha rfl rfl rfl rfl rfl rfl fun _ => Decimal.le_refl _

theorem frame_of_resolve (ha : trades asset) (hq : quotes outcome) (h : resolve asset outcome b = .ok n b') :
    Frame trades quotes b b' := by
  obtain ⟨yes, u, no, v, hy, hn, hv⟩ := resolve_eq_ok h
  have hs : Frame trades quotes b v :=
    ((frame_withPrice hq b asset).trans (frame_of_resolveSide ha hy)).trans (frame_of_resolveSide ha hn)
  obtain ⟨-, -, rfl⟩ | ⟨-, equity, hm⟩ := hv
  · exact hs
  · have hc : Frame trades quotes v { v with tradesExecuted := v.tradesExecuted + 1 } := .of_eq rfl rfl rfl rfl rfl
    exact (hs.trans hc).trans (frame_of_markEquity hm)

/-- An operation stays within what it trades and quotes. -/
theorem frame_of_run {r : Option Decimal} (hw : op.Within trades quotes) (h : op.run b = .ok r b') :
    Frame trades quotes b b' := by
  cases op with
  | buy asset side quote dollars available =>
    obtain ⟨n, hb, -⟩ := run_map_eq_ok_iff.1 h
    exact frame_of_buy hw.1 hw.2 hb
  | sellAll asset side quote available =>
    obtain ⟨n, hs, -⟩ := run_map_eq_ok_iff.1 h
    obtain ⟨limit, -, hs⟩ := sellAll_eq_ok_iff.1 hs
    exact frame_of_sell hw.1 hw.2 hs
  | liquidate asset quote =>
    obtain ⟨n, hl, -⟩ := run_map_eq_ok_iff.1 h
    obtain ⟨yes, u, no, hy, hn⟩ := liquidate_eq_ok hl
    exact (frame_of_sell hw.1 hw.2 hy).trans (frame_of_sell hw.1 hw.2 hn)
  | resolve asset outcome =>
    obtain ⟨n, hr, -⟩ := run_map_eq_ok_iff.1 h
    exact frame_of_resolve hw.1 hw.2 hr
  | reject asset kind price =>
    obtain ⟨_, u, hr, hu⟩ := run_bind_eq_ok_iff.1 h
    obtain ⟨-, rfl⟩ := reject_eq_ok hr
    obtain ⟨-, rfl⟩ := run_pure_eq_ok_iff.1 hu
    refine ⟨rfl, rfl, fun _ _ _ => rfl, fun _ _ hp => .inl hp, ⟨[_], rfl, fun t ht => ?_⟩, id⟩
    rw [List.mem_singleton.1 ht]
  | setClock now => exact hw.elim
  | setPrice asset price =>
    obtain ⟨-, rfl⟩ := run_pure_eq_ok_iff.1 h
    exact frame_withPrice hw b asset
  | markEquity =>
    obtain ⟨n, hm, -⟩ := run_map_eq_ok_iff.1 h
    exact frame_of_markEquity hm

section Unshorted

/-- Every operation keeps holdings from falling below nothing, and the configuration as it is. -/
theorem unshorted_of_run {r : Option Decimal} (h : op.run b = .ok r b') :
    (b.Unshorted → b'.Unshorted) ∧ b'.config = b.config := by
  by_cases hc : ∃ now, op = .setClock now
  · obtain ⟨now, rfl⟩ := hc
    obtain ⟨-, rfl⟩ := run_pure_eq_ok_iff.1 h
    exact ⟨id, rfl⟩
  · have hw : op.Within (fun _ => True) fun _ => True := by
      cases op with
      | setClock now => exact absurd ⟨now, rfl⟩ hc
      | _ => simp [Operation.Within]
    have hf := frame_of_run hw h
    exact ⟨hf.unshorted, hf.config⟩

theorem unshorted_of_runAll {ops : List Operation} (h : b.runAll ops = .ok b') :
    (b.Unshorted → b'.Unshorted) ∧ b'.config = b.config := by
  refine runAll_induction (motive := fun b _ b' => (b.Unshorted → b'.Unshorted) ∧ b'.config = b.config) ?_ ?_ h
  · exact fun b => ⟨id, rfl⟩
  · rintro b op ops r u b' hop - ⟨hu, hc⟩
    obtain ⟨hu', hc'⟩ := unshorted_of_run hop
    exact ⟨hu ∘ hu', hc.trans hc'⟩

theorem unshorted_new (config : BrokerConfig) (visiting : Visiting) : (new config visiting).Unshorted :=
  fun _ side => by cases side <;> exact Decimal.le_refl _

end Unshorted

section Spared

theorem position_of_buy (hs : other ≠ asset ∨ t ≠ side) (h : buy asset side quote dollars available b = .ok n b') :
    b'.position other t = b.position other t := by
  obtain rfl | ⟨fill, -, hb⟩ := buy_eq_ok h
  · rfl
  · obtain ⟨p, cash, -, -, -, rfl⟩ := bookBuy_eq_ok_iff.1 hb
    exact Ledger.get_set_of_ne b.ledger hs p

theorem position_of_sell (hs : other ≠ asset ∨ t ≠ side) (h : sell asset side quote limit b = .ok n b') :
    b'.position other t = b.position other t := by
  obtain rfl | ⟨fill, -, hb⟩ := sell_eq_ok h
  · rfl
  · obtain ⟨rest, cash, equity, -, -, -, hm⟩ := bookSell_eq_ok_iff.1 hb
    rw [(sameBooks_of_markEquity hm).position_eq]
    exact Ledger.get_set_of_ne b.ledger hs _

/-- What is booked as sold comes off the holding. -/
theorem position_of_bookSell {u : Unit} (h : bookSell asset side fill b = .ok u b') : ∃ rest,
    (b.position asset side).shares.sub fill.shares = .ok rest ∧
      b'.position asset side = (b.position asset side).withShares rest := by
  obtain ⟨rest, cash, equity, hr, -, -, hm⟩ := bookSell_eq_ok_iff.1 h
  refine ⟨rest, hr, ?_⟩
  rw [(sameBooks_of_markEquity hm).position_eq, position_withSale]

theorem position_of_run {r : Option Decimal} (hs : op.Spares asset side) (h : op.run b = .ok r b') :
    b'.position asset side = b.position asset side := by
  -- of the other assets the frame tells, whatever is quoted
  have hframe (hw : op.Within (fun other => asset ≠ other) fun _ => True) :
      b'.position asset side = b.position asset side :=
    (frame_of_run hw h).position asset (fun hne => hne rfl) side
  cases op with
  | buy =>
    obtain ⟨n, hb, -⟩ := run_map_eq_ok_iff.1 h
    exact position_of_buy hs hb
  | sellAll =>
    obtain ⟨n, hb, -⟩ := run_map_eq_ok_iff.1 h
    obtain ⟨limit, -, hb⟩ := sellAll_eq_ok_iff.1 hb
    exact position_of_sell hs hb
  | liquidate | resolve => exact hframe ⟨hs, trivial⟩
  | setClock now =>
    obtain ⟨-, rfl⟩ := run_pure_eq_ok_iff.1 h
    rfl
  | reject | setPrice | markEquity => exact hframe trivial

/-- A holding stays as it is over any run that leaves it alone. -/
theorem position_of_runAll {ops : List Operation} (hs : ∀ op ∈ ops, op.Spares asset side)
    (h : b.runAll ops = .ok b') : b'.position asset side = b.position asset side := by
  refine runAll_induction (motive := fun b ops b' => (∀ op ∈ ops, op.Spares asset side) →
    b'.position asset side = b.position asset side) ?_ ?_ h hs
  · exact fun b _ => rfl
  · intro b op ops r u b' hu _ ih hs
    rw [ih fun op hm => hs op (List.mem_cons_of_mem _ hm)]
    exact position_of_run (hs op List.mem_cons_self) hu

end Spared

end Broker
end OutcomeMarket

import OutcomeMarket.Proofs.Account.Worth
import OutcomeMarket.Proofs.Decimal.Sum
import OutcomeMarket.Proofs.TextMap

/-! How many shares an account holds, over all assets and both sides. A write changes the count by what it changes of
one position. No share is worth more than a dollar, so the count bounds what the holdings add to the cash, however many
positions there are: an account with room for its cash and twice its shares can be valued. -/
namespace OutcomeMarket

/-- The shares of both sides. -/
def PositionPair.shareCount (p : PositionPair) : ℚ := p.yes.shares.toRat + p.no.shares.toRat

theorem PositionPair.shareCount_setSide (p : PositionPair) (side : OutcomeSide) (q : Position) :
    (p.setSide side q).shareCount = p.shareCount - (p.side side).shares.toRat + q.shares.toRat := by
  cases side <;> simp only [setSide, side, shareCount] <;> ring

namespace Ledger

/-- All shares there are. -/
def shareCount (l : Ledger) : ℚ := (l.pairs.entries.map fun e => e.2.shareCount).sum

variable {l : Ledger} {asset : String} {side : OutcomeSide} {p : Position}

theorem shareCount_set (l : Ledger) (asset : String) (side : OutcomeSide) (p : Position) :
    (l.set asset side p).shareCount = l.shareCount - (l.get asset side).shares.toRat + p.shares.toRat := by
  have hflat : PositionPair.flat.shareCount = 0 := by
    simp [PositionPair.shareCount, PositionPair.flat, Position.flat]
  have hput := TextMap.sum_put PositionPair.shareCount hflat asset ((l.pair asset).setSide side p) l.pairs.entries
  rw [PositionPair.shareCount_setSide] at hput
  refine hput.trans ?_
  change l.shareCount - (l.pair asset).shareCount +
    ((l.pair asset).shareCount - (l.get asset side).shares.toRat + p.shares.toRat) = _
  ring

theorem shareCount_nonneg (h : ∀ asset side, .zero ≤ (l.get asset side).shares) : 0 ≤ l.shareCount := by
  refine List.sum_nonneg (List.forall_mem_map.2 fun e he => ?_)
  have hpair : l.pair e.1 = e.2 := pair_of_mem he
  have hyes := Decimal.zero_le_iff_toRat.1 (h e.1 .yes)
  have hno := Decimal.zero_le_iff_toRat.1 (h e.1 .no)
  unfold get at hyes hno
  rw [hpair] at hyes hno
  exact add_nonneg hyes hno

/-- No position has more shares than there are. -/
theorem shares_le_shareCount (h : ∀ asset side, .zero ≤ (l.get asset side).shares) (asset : String)
    (side : OutcomeSide) : (l.get asset side).shares.toRat ≤ l.shareCount := by
  -- without it there would still be no fewer than none
  have hrest : 0 ≤ (l.close asset side).shareCount := by
    refine shareCount_nonneg fun other t => ?_
    unfold close
    rw [get_set]
    split
    · exact Decimal.le_refl _
    · exact h other t
  unfold close at hrest
  rw [shareCount_set, Position.flat, Decimal.toRat_zero] at hrest
  linarith

end Ledger

namespace Broker

open Decimal

section Value

variable {start x : ℚ} {v price : Decimal} {held : Position} {pair : PositionPair} {last : Option Decimal}
  {prices : TextMap Decimal} {es : List (String × PositionPair)}

/-- Shares are worth no more dollars than there are shares. -/
theorem exists_addPosition (h : RunUp start x v) (h0 : .zero ≤ held.shares) (hp : FairOutcome price)
    (hroom : start + 2 * (x + held.shares.toRat) + 1 ≤ maxMantissa) :
    ∃ d, addPosition held (.ok price) v = .ok d ∧ RunUp start (x + held.shares.toRat) d := by
  have hshares := zero_le_iff_toRat.1 h0
  unfold addPosition
  by_cases hf : held.isFlat = true
  · rw [if_pos hf]
    exact ⟨v, rfl, h.mono (by linarith)⟩
  · obtain ⟨worth, hw, hpos⟩ := exists_worth h0 hp
    have hle := le_iff_toRat.1 (mul_le_left h0 hp.2 hw)
    rw [if_neg hf]
    change ∃ d, (held.shares.mul price >>= v.add) = .ok d ∧ _
    rw [hw]
    obtain ⟨d, hd, hrun⟩ := h.exists_add hpos (by linarith)
    exact ⟨d, hd, hrun.mono (by linarith)⟩

theorem exists_addHolding (h : RunUp start x v) (hy : .zero ≤ pair.yes.shares) (hn : .zero ≤ pair.no.shares)
    (hl : ∀ p, last = some p → FairOutcome p) (hroom : start + 2 * (x + pair.shareCount) + 1 ≤ maxMantissa) :
    ∃ d, addHolding last v pair = .ok d ∧ RunUp start (x + pair.shareCount) d := by
  obtain ⟨p, hp, hfair, -⟩ := exists_valuation hl .yes
  obtain ⟨q, hq, hfair', -⟩ := exists_valuation hl .no
  have hno := zero_le_iff_toRat.1 hn
  unfold PositionPair.shareCount at *
  rw [← add_assoc] at hroom ⊢
  obtain ⟨w, hw, hrun⟩ := exists_addPosition h hy hfair (by linarith)
  obtain ⟨d, hd, hrun⟩ := exists_addPosition hrun hn hfair' hroom
  refine ⟨d, ?_, hrun⟩
  rw [addHolding_eq, hp, hq]
  exact OutcomeMarket.bind_eq_ok_iff.2 ⟨w, hw, hd⟩

theorem exists_foldlM_addHolding (hes : ∀ e ∈ es, .zero ≤ e.2.yes.shares ∧ .zero ≤ e.2.no.shares)
    (hp : ∀ asset p, prices.find? asset = some p → FairOutcome p) (h : RunUp start x v)
    (hroom : start + 2 * (x + (es.map fun e => e.2.shareCount).sum) + 1 ≤ maxMantissa) :
    ∃ d, es.foldlM (fun v e => addHolding (prices.find? e.1) v e.2) v = .ok d ∧
      RunUp start (x + (es.map fun e => e.2.shareCount).sum) d := by
  induction es generalizing x v with
  | nil => exact ⟨v, rfl, by simpa using h⟩
  | cons e es ih =>
    obtain ⟨hhead, htail⟩ := List.forall_mem_cons.1 hes
    have hrest : 0 ≤ (es.map fun e => e.2.shareCount).sum := List.sum_nonneg (List.forall_mem_map.2 fun e he =>
      add_nonneg (zero_le_iff_toRat.1 (htail e he).1) (zero_le_iff_toRat.1 (htail e he).2))
    rw [List.map_cons, List.sum_cons, ← add_assoc] at hroom ⊢
    obtain ⟨w, hw, hrun⟩ := exists_addHolding h hhead.1 hhead.2 (hp e.1) (by linarith)
    obtain ⟨d, hd, hrun⟩ := ih htail hrun hroom
    exact ⟨d, OutcomeMarket.bind_eq_ok_iff.2 ⟨w, hw, hd⟩, hrun⟩

/-- An account can be valued if there is room for its cash and twice its shares, in however many positions. -/
theorem Solvent.exists_value {b : Broker} (h : b.Solvent)
    (hroom : b.cash.toRat + 2 * b.ledger.shareCount + 1 ≤ maxMantissa) : ∃ v, b.value = .ok v ∧ .zero ≤ v := by
  have hvisited := b.visiting.perm b.ledger.pairs.entries
  unfold Ledger.shareCount at hroom
  rw [← (hvisited.map fun e => e.2.shareCount).sum_eq] at hroom
  obtain ⟨v, hv, hrun⟩ := exists_foldlM_addHolding (fun e he => h.shares_nonneg e (hvisited.mem_iff.1 he)) h.price
    (.refl h.cash_nonneg) (by rwa [zero_add])
  exact ⟨v, hv, hrun.nonneg⟩

end Value
end Broker
end OutcomeMarket

import OutcomeMarket.Proofs.Account.Soundness
import OutcomeMarket.Proofs.Decimal.Range

/-! What a fault leaves of an account. Everything that can go wrong in a buy goes wrong before the buy writes
anything but the price. A sale counts the exit and gives the shares away first; when the cash overflows then, the
proceeds are lost, and when the account cannot be valued, the sale stands. -/
namespace OutcomeMarket
namespace Broker

/-- What a sale that faults leaves of the account. -/
inductive Interrupted (b : Broker) (asset : String) (side : OutcomeSide) (fill : Fill) : Broker → Prop where
  | unpaid {rest : Decimal} {c : Decimal.ArithmeticFault}
      (hr : (b.position asset side).shares.sub fill.shares = .ok rest) (hc : b.cash.add fill.value = .error c) :
      Interrupted b asset side fill ((b.withExit fill.price (b.position asset side).averagePrice).withPosition
        asset side ((b.position asset side).withShares rest) b.cash)
  | unvalued {rest cash : Decimal} (peak : Decimal)
      (hr : (b.position asset side).shares.sub fill.shares = .ok rest) (hc : b.cash.add fill.value = .ok cash) :
      Interrupted b asset side fill
        ((b.withSale asset side fill rest cash).withExtremes peak b.maxDrawdown)

variable {b b' : Broker} {asset : String} {side : OutcomeSide} {fill : Fill}
  {quote dollars available n : Decimal} {limit : Option Decimal} {f : Fault}

theorem withExtremes_self (b : Broker) : b.withExtremes b.peakEquity b.maxDrawdown = b := rfl

/-- A valuation that faults may have raised the peak. -/
theorem state_of_markEquity_error (h : markEquity b = .error f b') :
    ∃ peak, b.peakEquity ≤ peak ∧ b' = b.withExtremes peak b.maxDrawdown := by
  simp only [markEquity, run_get_bind, run_checked_bind_eq_error_iff, run_modify_bind, run_pure_ne_error,
    and_false, exists_false, or_false] at h
  obtain ⟨_, rfl⟩ | ⟨equity, _, _, rfl⟩ := h
  · exact ⟨b.peakEquity, Decimal.le_refl _, (withExtremes_self b).symm⟩
  · exact ⟨_, Decimal.le_max_left _ equity, rfl⟩

theorem state_of_bookBuy_error (h0 : .zero ≤ fill.value) (hv : fill.value ≤ b.cash)
    (h : bookBuy asset side fill b = .error f b') : b' = b := by
  simp only [bookBuy, countAction, record, run_get_bind, run_lift_bind_eq_error_iff, run_modify_bind,
    run_checked_bind_eq_error_iff, run_lift_eq_error_iff, ensure_eq_error_iff] at h
  obtain ⟨cash, hc⟩ := Decimal.exists_sub_of_le h0 hv
  obtain ⟨_, rfl⟩ | ⟨_, _, ⟨⟨c, hc', _⟩, _⟩ | ⟨cash', hc', ⟨hn, _⟩, _⟩⟩ := h
  · rfl
  · rw [hc] at hc'
    cases hc'
  · exact absurd (Decimal.zero_le_sub hv hc') hn

/-- A buy that faults has at most noted the quote. -/
theorem state_of_buy_error (h : buy asset side quote dollars available b = .error f b') :
    b' = b ∨ b' = b.withPrice asset quote := by
  simp only [buy, run_lift_bind_eq_error_iff, run_setPrice_bind, run_get_bind,
    run_checked_bind_eq_error_iff] at h
  obtain ⟨_, rfl⟩ | ⟨_, _, ⟨_, rfl⟩ | ⟨_, _, ⟨_, rfl⟩ | ⟨filled, hq, h⟩⟩⟩ := h
  · exact .inl rfl
  · exact .inl rfl
  · exact .inr rfl
  · right
    cases filled with
    | none => exact absurd h run_pure_ne_error
    | some fill =>
      obtain ⟨h0, _, hv⟩ := quoteBuy_value hq
      obtain h | ⟨_, _, _, h⟩ := run_bind_eq_error_iff.1 h
      · exact state_of_bookBuy_error h0 hv h
      · exact absurd h run_pure_ne_error

theorem interrupted_of_bookSell_error (h0 : .zero < fill.shares) (hle : fill.shares ≤ (b.position asset side).shares)
    (h : bookSell asset side fill b = .error f b') : Interrupted b asset side fill b' := by
  simp only [bookSell, countAction, countExecuted, record, run_get_bind, run_classify_bind,
    run_lift_bind_eq_error_iff, run_modify_bind, run_checked_bind_eq_error_iff, run_discard_eq_error_iff,
    applySell_eq_ok_iff] at h
  obtain ⟨rest, hr⟩ := Decimal.exists_sub_of_le (Decimal.le_of_lt h0) hle
  obtain ⟨hl, _⟩ | ⟨_, ⟨rest', hr', _, rfl⟩, ⟨⟨c, hc, _⟩, rfl⟩ | ⟨cash, hc, hm⟩⟩ := h
  · -- the shares are there, so they can be given away
    have hok := applySell_eq_ok_iff.2 ⟨rest, hr, Decimal.zero_le_sub hle hr, rfl⟩
    have hl' : b.ledger.applySell asset side fill.shares = .error f := hl
    rw [hok] at hl'
    cases hl'
  · exact .unpaid hr' hc
  · obtain ⟨peak, -, rfl⟩ := state_of_markEquity_error hm
    exact .unvalued peak hr' hc

/-- A sale that faults before a fill was worked out has noted the quote; one that faults later is interrupted. -/
theorem state_of_sell_error (h : sell asset side quote limit b = .error f b') :
    (b' = b.withPrice asset quote ∧ ∃ c, (b.withPrice asset quote).quoteSell asset side quote limit = .error c) ∨
      ∃ fill, (b.withPrice asset quote).quoteSell asset side quote limit = .ok (some fill) ∧
        Interrupted (b.withPrice asset quote) asset side fill b' := by
  simp only [sell, run_setPrice_bind, run_get_bind, run_checked_bind_eq_error_iff] at h
  obtain ⟨⟨c, hc, _⟩, rfl⟩ | ⟨filled, hq, h⟩ := h
  · exact .inl ⟨rfl, c, hc⟩
  · cases filled with
    | none => exact absurd h run_pure_ne_error
    | some fill =>
      obtain ⟨_, h0, hle, _⟩ := quoteSell_eq_some hq
      obtain h | ⟨_, _, _, h⟩ := run_bind_eq_error_iff.1 h
      · exact .inr ⟨fill, hq, interrupted_of_bookSell_error h0 hle h⟩
      · exact absurd h run_pure_ne_error

theorem state_of_sellAll_error (h : sellAll asset side quote available b = .error f b') :
    (b' = b ∧ ∃ c, b.cap available = .error c) ∨
      ∃ limit, b.cap available = .ok limit ∧ sell asset side quote (some limit) b = .error f b' := by
  simp only [sellAll, run_get_bind, run_checked_bind_eq_error_iff] at h
  obtain ⟨⟨c, hc, _⟩, rfl⟩ | h := h
  · exact .inl ⟨rfl, c, hc⟩
  · exact .inr h

end Broker
end OutcomeMarket

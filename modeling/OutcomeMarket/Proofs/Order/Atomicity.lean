import OutcomeMarket.Proofs.Order.Decision
import OutcomeMarket.Proofs.Order.Exclusion

/-! What a delayed order that faults leaves behind. The book is as it was, since what was filled can always be
taken out of it. A buy leaves the account as it was. So does a sale, but only until its fill has been worked out:
from then on a fault costs the trader shares or leaves a sale that nobody was told of. -/
namespace OutcomeMarket

namespace Broker

/-- The same account, but for the prices at which holdings are valued. -/
def Untouched (b b' : Broker) : Prop := b' = { b with prices := b'.prices }

variable {b b' : Broker} {asset : String} {side : OutcomeSide} {fill : Fill}

theorem untouched_refl (b : Broker) : Untouched b b := rfl

theorem untouched_withPrice (b : Broker) (asset : String) (price : Decimal) :
    Untouched b (b.withPrice asset price) := rfl

/-- An interrupted sale is counted as a win or a loss. -/
theorem Interrupted.exits (h : Interrupted b asset side fill b') : b'.wins + b'.losses = b.wins + b.losses + 1 := by
  have hexit : ∀ entry, (b.withExit fill.price entry).wins + (b.withExit fill.price entry).losses =
      b.wins + b.losses + 1 := by
    intro entry
    unfold withExit
    dsimp only
    split <;> omega
  cases h with
  | unpaid => exact hexit _
  | unvalued => exact hexit _

theorem Untouched.exits (h : Untouched b b') : b'.wins + b'.losses = b.wins + b.losses := by
  unfold Untouched at h
  rw [h]

end Broker

open Broker

theorem Book.consume_ne_error {book : Book} {s : BookSide} {n : Decimal} {f : Fault} (h0 : .zero ≤ n)
    (hn : n ≤ book.bestSize s) : book.consume s n ≠ .error f := by
  unfold Book.bestSize at hn
  unfold Book.consume
  generalize book.levels s = levels at hn
  cases levels with
  | nil => exact pure_ne_error
  | cons x xs =>
    have hx : n ≤ x.size := hn
    obtain ⟨rest, hr⟩ := Decimal.exists_sub_of_le h0 hx
    dsimp only
    rw [hr]
    exact nofun

namespace Order

/-- The fill of a sale that the order has worked out. -/
def WorksOut (o : Order) (book : Book) (b : Broker) (fill : Fill) : Prop :=
  o.intent.isBuy = false ∧ ∃ limit, b.cap (book.bestSize o.intent.touchSide) = .ok limit ∧
    (b.withPrice o.asset (book.bestPrice o.intent.touchSide)).quoteSell o.asset o.intent.side
      (book.bestPrice o.intent.touchSide) (some limit) = .ok (some fill)

variable {o : Order} {book : Book} {b b' : Broker} {quote dollars size n most : Decimal} {fill : Fill} {f : Fault}

/-- A sale is worked out in one way. -/
theorem WorksOut.eq {fill' : Fill} (h : o.WorksOut book b fill) (h' : o.WorksOut book b fill') : fill = fill' := by
  obtain ⟨_, limit, hcap, hq⟩ := h
  obtain ⟨_, limit', hcap', hq'⟩ := h'
  rw [hcap] at hcap'
  cases hcap'
  rw [hq] at hq'
  cases hq'
  rfl

theorem cap_le (hv : b.config.Valid) (hs : .zero ≤ size) (h : b.cap size = .ok most) : most ≤ size :=
  Decimal.mul_le_left hs hv.rate_le_one h

theorem quoteBuy_le_cap {side : OutcomeSide} (h : b.quoteBuy side quote dollars size = .ok (some fill)) :
    ∃ most, b.cap size = .ok most ∧ fill.shares ≤ most := by
  obtain ⟨_, _, _, hp, _, most, wanted, cost, _, hmost, hwanted, hcost, _, _, hcut⟩ := quoteBuy_worth h
  refine ⟨most, hmost, ?_⟩
  obtain ⟨_, hw⟩ | ⟨hlt, hdiv⟩ := hcut
  · rw [hw]
    exact hwanted
  · -- what the cash pays for is less than what it does not pay for
    refine Decimal.le_trans (Decimal.le_iff_toRat.2 ((Decimal.rounds_div hdiv).le_of_le ?_)) hwanted
    have hp' := Decimal.zero_lt_iff_toRat.1 hp
    rw [div_le_iff₀ hp']
    by_contra hn
    rw [Decimal.lt_iff_toRat] at hlt
    exact absurd ((Decimal.rounds_mul hcost).le_of_le (le_of_lt (lt_of_not_ge hn))) (not_le.2 hlt)

/-- What is filled is within the part of the visible shares that one fill may take. -/
theorem fill_le_cap (h : o.intent.fill o.asset quote dollars size b = .ok n b') :
    n = .zero ∨ ∃ most, b.cap size = .ok most ∧ n ≤ most := by
  unfold OrderIntent.fill at h
  split at h
  · obtain ⟨rfl, _⟩ | ⟨fill, rfl, hq, _⟩ := filled_of_buy h
    · exact .inl rfl
    · exact .inr (quoteBuy_le_cap hq)
  · simp only [sellAll, run_get_bind, run_checked_bind_eq_ok_iff] at h
    obtain ⟨limit, hlimit, h⟩ := h
    obtain ⟨rfl, _⟩ | ⟨fill, rfl, hq, _⟩ := filled_of_sell h
    · exact .inl rfl
    · obtain ⟨_, _, hshares, _⟩ := quoteSell_worth hq
      refine .inr ⟨limit, hlimit, ?_⟩
      rw [hshares]
      exact Decimal.min_le_right _ _

/-- No more is filled than there is. -/
theorem fill_le (hv : b.config.Valid) (hs : .zero ≤ size)
    (h : o.intent.fill o.asset quote dollars size b = .ok n b') : n ≤ size := by
  obtain rfl | ⟨most, hmost, hn⟩ := fill_le_cap h
  · exact hs
  · exact Decimal.le_trans hn (cap_le hv hs hmost)

/-- Once there is a fill, nothing can go wrong with the book. -/
theorem fill_eq_error_of_trade (hv : b.config.Valid) (hs : .zero < book.bestSize o.intent.touchSide)
    (h : o.trade book b = .error f b') :
    o.intent.fill o.asset (book.bestPrice o.intent.touchSide) o.dollars (book.bestSize o.intent.touchSide) b =
      .error f b' := by
  obtain h | ⟨n, hfill, hc⟩ := trade_eq_error h
  · exact h
  · have hle := fill_le hv (Decimal.le_of_lt hs) hfill
    obtain ⟨rfl, _⟩ | ⟨h0, _⟩ := fill_eq_ok hfill
    · exact absurd hc (Book.consume_ne_error (Decimal.le_refl _) hle)
    · exact absurd hc (Book.consume_ne_error (Decimal.le_of_lt h0) hle)

/-- A fill that faults leaves the account untouched, unless it is a sale that had been worked out. -/
theorem state_of_fill_error
    (h : o.intent.fill o.asset (book.bestPrice o.intent.touchSide) dollars (book.bestSize o.intent.touchSide) b =
      .error f b') :
    (Untouched b b' ∧ ∀ fill, ¬ o.WorksOut book b fill) ∨ ∃ fill, o.WorksOut book b fill ∧
      Interrupted (b.withPrice o.asset (book.bestPrice o.intent.touchSide)) o.asset o.intent.side fill b' := by
  unfold OrderIntent.fill at h
  split at h
  · rename_i hbuy
    have hnone : ∀ fill, ¬ o.WorksOut book b fill := by
      rintro fill ⟨hsell, _⟩
      rw [hbuy] at hsell
      cases hsell
    obtain rfl | rfl := state_of_buy_error h
    · exact .inl ⟨untouched_refl _, hnone⟩
    · exact .inl ⟨untouched_withPrice .., hnone⟩
  · rename_i hsell
    obtain ⟨rfl, c, hcap⟩ | ⟨limit, hcap, h⟩ := state_of_sellAll_error h
    · refine .inl ⟨untouched_refl _, ?_⟩
      rintro fill ⟨_, limit, hcap', _⟩
      rw [hcap] at hcap'
      cases hcap'
    obtain ⟨rfl, c, hq⟩ | ⟨fill, hq, hi⟩ := state_of_sell_error h
    · refine .inl ⟨untouched_withPrice .., ?_⟩
      rintro fill ⟨_, limit', hcap', hq'⟩
      rw [hcap] at hcap'
      cases hcap'
      rw [hq] at hq'
      cases hq'
    · exact .inr ⟨fill, ⟨by simpa using hsell, limit, hcap, hq⟩, hi⟩

/-- An order that faults is one that passes the checks. -/
theorem trade_eq_error_of_fillAfterDelay {locked : Bool} (h : o.fillAfterDelay locked book b = .error f b') :
    o.Passes book ∧ o.trade book b = .error f b' := by
  cases locked with
  | true =>
    rw [fillAfterDelay_of_locked] at h
    cases h
  | false =>
    by_cases hp : o.Passes book
    · rw [fillAfterDelay_of_passes hp] at h
      split at h
      · cases h
      · rename_i ht
        injection h with hf hb
        rw [hf, hb] at ht
        exact ⟨hp, ht⟩
    · obtain ⟨_, _, _, h'⟩ := fillAfterDelay_of_not_passes (b := b) hp
      rw [h'] at h
      cases h

end Order

namespace Session

variable {s : Session} {held : Option String} {n : ℕ} {d : DelayedOrder} {f : Fault}

/-- When a delayed order faults, the books are as they were. The account is as it was, but for a noted price,
exactly if no sale had been worked out, and so after every buy; the fault of a sale that had been worked out
leaves an interrupted sale. -/
theorem state_of_faulted (hv : s.broker.config.validate = .ok ()) (hd : s.orders[n]? = some d)
    (hf : (s.fire held n d).orders[n]? = some { d with stage := .faulted f }) :
    (s.fire held n d).books = s.books ∧
      (Untouched s.broker (s.fire held n d).broker ↔
        ∀ fill, ¬ d.order.WorksOut (s.venueBook d.venue) s.broker fill) ∧
      ∀ fill, d.order.WorksOut (s.venueBook d.venue) s.broker fill → Interrupted
        (s.broker.withPrice d.order.asset ((s.venueBook d.venue).bestPrice d.order.intent.touchSide))
        d.order.asset d.order.intent.side fill (s.fire held n d).broker := by
  rw [BrokerConfig.validate_eq_ok_iff] at hv
  obtain ⟨b, h⟩ := fillAfterDelay_of_faulted hd hf
  obtain ⟨hp, ht⟩ := Order.trade_eq_error_of_fillAfterDelay h
  rw [fire_of_error h]
  change s.books = s.books ∧ (Untouched s.broker b ↔ _) ∧ ∀ fill, _ → Interrupted _ _ _ fill b
  refine ⟨rfl, ?_⟩
  obtain ⟨hu, hnone⟩ | ⟨fill, hw, hi⟩ := Order.state_of_fill_error (Order.fill_eq_error_of_trade hv hp.size_pos ht)
  · exact ⟨iff_of_true hu hnone, fun fill hw => absurd hw (hnone fill)⟩
  · refine ⟨iff_of_false ?_ fun hnone => hnone fill hw, ?_⟩
    · intro hu
      have h1 := hi.exits
      have h2 := hu.exits
      change b.wins + b.losses = s.broker.wins + s.broker.losses + 1 at h1
      omega
    · intro fill' hw'
      rw [← hw.eq hw']
      exact hi

/-- An order for two hundred shares of an account that has no room for their worth. -/
def overfullSale : DelayedOrder := ⟨⟨"rain", .sellYes, .lit 50 2, .zero⟩, .live "rain", 50, .pending, false⟩

/-- As much cash as can be written, no spread, and orders that take fifty milliseconds. -/
def overfullConfig : BrokerConfig := { BrokerConfig.standard with
  startingCash := .lit 79228162514264337593543950335 0, spreadPenalty := .zero, latencyMillis := 50 }

/-- As much cash as can be written, a hundred dollars of it spent on shares that are now worth more, and their sale
on its way. -/
def overfull : Session :=
  let start : Broker := .new overfullConfig .oldestFirst
  let account := after (buy "rain" .yes (.lit 50 2) (.lit 100 0) (.lit 1000 0)) start
  let session := (new account 50).setBook "rain" ⟨"rain", [⟨.lit 90 2, .lit 1000 0⟩], []⟩
  after (submit overfullSale.order (.live "rain") false) session

theorem state_of_overfull_sale : (overfull.fire none 0 overfullSale).books = overfull.books ∧
    ∃ fill, overfullSale.order.WorksOut (overfull.venueBook overfullSale.venue) overfull.broker fill ∧
      ¬ Untouched overfull.broker (overfull.fire none 0 overfullSale).broker ∧
      Interrupted (overfull.broker.withPrice "rain" ((overfull.venueBook overfullSale.venue).bestPrice .bid))
        "rain" .yes fill (overfull.fire none 0 overfullSale).broker := by
  have hf : (overfull.fire none 0 overfullSale).orders[0]? =
      some { overfullSale with stage := .faulted (.arithmetic .additionOverflow) } := by decide +kernel
  obtain ⟨hbooks, hu, hi⟩ := state_of_faulted (by decide +kernel) (by decide +kernel) hf
  have hw : overfullSale.order.WorksOut (overfull.venueBook overfullSale.venue) overfull.broker
      ⟨.lit 90 2, .lit 200 0, .lit 18000 2⟩ := ⟨rfl, .lit 100000 2, by decide +kernel, by decide +kernel⟩
  exact ⟨hbooks, _, hw, fun h => hu.1 h _ hw, hi _ hw⟩

/-- Whoever waits for that sale learns of the overflow. The shares are gone and a win is counted, but there is
neither cash nor a record for it. -/
theorem shares_lost_in_overfull_sale :
    let s := (overfull.wait none 0).2
    overfull.broker.config.validate = .ok () ∧
      (overfull.wait none 0).1 = Stage.answer (.faulted (.arithmetic .additionOverflow)) ∧
      (overfull.broker.position "rain" .yes).shares.SameValue (.lit 200 0) ∧
      (s.broker.position "rain" .yes).isFlat = true ∧
      s.broker.cash = overfull.broker.cash ∧ s.broker.trades = overfull.broker.trades ∧
      overfull.broker.wins = 0 ∧ s.broker.wins = 1 := by
  decide +kernel

end Session
end OutcomeMarket

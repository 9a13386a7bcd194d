import OutcomeMarket.Proofs.Account.Affordable
import OutcomeMarket.Proofs.Account.Closing
import OutcomeMarket.Proofs.Book.Soundness
import OutcomeMarket.Proofs.Order.Atomicity

/-! What a delayed order is told when it ends without a fill. A quote that was refused is named as it was found, and
with the check that it failed. An order that passed the checks and filled nothing is told of missing cash or of missing
shares, whichever it needed; but it also gets that answer when it asked for no more than dust, or when the part of the
touch that one fill may take is too small to be written. -/
namespace OutcomeMarket

namespace Broker

variable {b : Broker} {asset : String} {side : OutcomeSide} {quote dollars available price most n : Decimal}

theorem ite_pure_none_eq_none {p : Prop} [Decidable p] {x : Decimal.Checked (Option Fill)}
    (h : (if p then pure none else x) = .ok none) : p ∨ x = .ok none := by
  by_cases hp : p
  · exact .inl hp
  · rw [if_neg hp] at h
    exact .inr h

/-- At a tradable quote a buy has a positive price. -/
theorem buyPrice_pos (hv : b.config.Valid) (ht : Order.Tradable quote) (h : b.buyPrice side quote = .ok price) :
    .zero < price := by
  obtain ⟨quoted, hquoted, h⟩ := OutcomeMarket.bind_eq_ok_iff.1 h
  obtain ⟨up, hup, h⟩ := OutcomeMarket.bind_eq_ok_iff.1 h
  cases h
  obtain ⟨hge, -⟩ := worth_bounds side (Decimal.le_of_lt ht.1) (Decimal.le_of_lt ht.2)
  rw [← toRat_priceFromYes (Order.fairOutcome_of_tradable ht) hquoted] at hge
  have hmin : 0 < minExecutionPrice.toRat := Decimal.zero_lt_iff_toRat.1 (by decide)
  have hmax : 0 < maxExecutionPrice.toRat := Decimal.zero_lt_iff_toRat.1 (by decide)
  have hle := Decimal.le_iff_toRat.1 (Decimal.le_add_right hv.penalty_nonneg hup)
  rw [Decimal.zero_lt_iff_toRat, Decimal.toRat_min]
  exact lt_min (by linarith) hmax

/-- A buy that fills nothing asks for dust, or for more than there is, or has too little room under the cap. -/
theorem short_of_quoteBuy (hv : b.config.Valid) (ht : Order.Tradable quote) (hd : .zero ≤ dollars)
    (h : b.quoteBuy side quote dollars available = .ok none) :
    b.cash < dollars ∨ dollars ≤ minOrderDollars ∨ ∃ most, b.cap available = .ok most ∧ most ≤ .zero := by
  obtain ⟨plain, hplain, hrel⟩ := exists_plain_of_quoteBuy hd h
  cases hrel
  unfold quotePlainly at hplain
  obtain hskip | h := ite_pure_none_eq_none hplain
  · exact hskip.symm.imp id .inl
  by_cases hdust : dollars ≤ minOrderDollars
  · exact .inr (.inl hdust)
  refine .inr (.inr ?_)
  obtain ⟨price, hprice, h⟩ := OutcomeMarket.bind_eq_ok_iff.1 h
  have hp := buyPrice_pos hv ht hprice
  rw [if_neg (Decimal.not_le.2 hp)] at h
  obtain ⟨desired, hdesired, h⟩ := OutcomeMarket.bind_eq_ok_iff.1 h
  obtain ⟨most, hmost, h⟩ := OutcomeMarket.bind_eq_ok_iff.1 h
  obtain ⟨cost, -, h⟩ := OutcomeMarket.bind_eq_ok_iff.1 h
  obtain hnone | h := ite_pure_none_eq_none h
  · refine ⟨most, hmost, ?_⟩
    -- the dollars pay for more than dust, so it is the cap that leaves nothing
    have hp0 := Decimal.zero_lt_iff_toRat.1 hp
    have hp1 := Decimal.le_one_iff_toRat.1 (buyPrice_le_one hprice)
    have hmin : 0 < minOrderDollars.toRat := Decimal.zero_lt_iff_toRat.1 (by decide)
    have hd0 := hmin.trans (Decimal.lt_iff_toRat.1 (Decimal.not_le.1 hdust))
    have hquot : dollars.toRat ≤ dollars.toRat / price.toRat := le_div_self hd0.le hp0 hp1
    have hdesired0 := hd0.trans_le ((Decimal.rounds_div hdesired).le_of_ge hquot)
    rw [Decimal.le_iff_toRat, Decimal.toRat_min, Decimal.toRat_zero] at hnone
    rw [Decimal.le_iff_toRat, Decimal.toRat_zero]
    exact (min_le_iff.1 hnone).resolve_left (not_le.2 hdesired0)
  · cases h

/-- A sale that fills nothing has no shares, or too little room under the cap. -/
theorem short_of_quoteSell (h : b.quoteSell asset side quote (some most) = .ok none) :
    (b.position asset side).shares ≤ .zero ∨ most ≤ .zero := by
  unfold quoteSell at h
  obtain hflat | h := ite_pure_none_eq_none h
  · exact .inl hflat
  obtain ⟨price, -, h⟩ := OutcomeMarket.bind_eq_ok_iff.1 h
  obtain hnone | h := ite_pure_none_eq_none h
  · rw [Decimal.le_iff_toRat, Decimal.toRat_min] at hnone
    simpa only [Decimal.le_iff_toRat] using min_le_iff.1 hnone
  · obtain ⟨value, -, h⟩ := OutcomeMarket.bind_eq_ok_iff.1 h
    cases h

/-- A cap is rounded to nothing only if it is half of the smallest number or less. -/
theorem cap_le_half_unit (hv : b.config.Valid) (hs : .zero ≤ available) (h : b.cap available = .ok most)
    (h0 : most ≤ .zero) : available.toRat * b.config.maxParticipationRate.toRat ≤ 1 / 2 / 10 ^ 28 := by
  have hx : 0 ≤ available.toRat * b.config.maxParticipationRate.toRat :=
    mul_nonneg (Decimal.zero_le_iff_toRat.1 hs) (Decimal.zero_lt_iff_toRat.1 hv.rate_pos).le
  have hr := Decimal.rounds_mul h
  rw [Decimal.le_iff_toRat, Decimal.toRat_zero] at h0
  have hmost : most.toRat = 0 := le_antisymm h0 (hr.nonneg hx)
  have hoff := hr.abs_sub_le_half_unit
  rw [hmost, zero_sub, abs_neg, abs_of_nonneg hx] at hoff
  obtain hoff | hoff := le_max_iff.1 hoff
  · exact hoff
  · have hbig : 5 * (available.toRat * b.config.maxParticipationRate.toRat) / Decimal.maxMantissa ≤
        (available.toRat * b.config.maxParticipationRate.toRat) / 2 := by
      rw [Decimal.cast_maxMantissa]
      linarith
    linarith

end Broker

namespace Order

open Broker

/-- The part of the touch that one fill may take is too small to be written. -/
def TooThin (o : Order) (book : Book) (b : Broker) : Prop :=
  (book.bestSize o.intent.touchSide).toRat * b.config.maxParticipationRate.toRat ≤ 1 / 2 / 10 ^ 28

/-- What is the case when an order is told of an error. -/
def Warrants (o : Order) (locked : Bool) (book : Book) (b : Broker) : ExecutionError → Prop
  | .bookBusy asset => asset = o.asset ∧ locked = true
  | .staleOrRejectedPrice asset price =>
    asset = o.asset ∧ price = book.bestPrice o.intent.touchSide ∧ ¬ Tradable price
  | .missedExecutionRace asset target observed =>
    asset = o.asset ∧ target = o.target ∧
      o.intent.terms (book.bestPrice o.intent.touchSide) = .ok observed ∧ ¬ o.intent.Accepts observed target
  | .insufficientFunds asset requested available =>
    o.intent.isBuy = true ∧ asset = o.asset ∧ requested = o.dollars ∧ available = b.cash ∧
      (available < requested ∨ requested ≤ minOrderDollars ∨ o.TooThin book b)
  | .noPosition asset =>
    o.intent.isBuy = false ∧ asset = o.asset ∧
      ((b.position asset o.intent.side).isFlat = true ∨ o.TooThin book b)
  | _ => False

variable {o : Order} {book book' : Book} {b b' : Broker} {locked : Bool} {e : ExecutionError}

/-- The touch of a sound book is for something, unless its price is that of an empty side. -/
theorem size_pos_of_tradable (hb : book.Sound) (h : Tradable (book.bestPrice o.intent.touchSide)) :
    .zero < book.bestSize o.intent.touchSide := by
  cases hx : book.levels o.intent.touchSide with
  | nil =>
    rw [(Book.best_of_empty hx).1] at h
    exact absurd h (not_tradable_emptyPrice _)
  | cons x xs =>
    have hsize : book.bestSize o.intent.touchSide = x.size := Book.bestSize_of_head (by rw [hx]; rfl)
    rw [hsize]
    exact (hb o.intent.touchSide).size_pos x (hx ▸ List.mem_cons_self)

/-- A refused quote failed the check that it is refused for. -/
theorem warrants_of_refusal {price : Decimal} (hb : book.Sound) (hp : ¬ o.Passes book) (h : o.Refusal book price e) :
    o.Warrants locked book b e := by
  cases h with
  | band ht => exact ⟨rfl, rfl, ht⟩
  | race ht ho =>
    refine ⟨rfl, rfl, ho, fun ha => hp ⟨ht, ⟨_, ho, ha⟩, size_pos_of_tradable hb ht⟩⟩

/-- An order that passed the checks and filled nothing lacked cash or shares, asked for dust, or met too thin a
touch. -/
theorem warrants_of_emptyFill (hv : b.config.Valid) (h0 : b.Unshorted) (hp : o.Passes book)
    (h : o.intent.fill o.asset (book.bestPrice o.intent.touchSide) o.dollars (book.bestSize o.intent.touchSide) b =
      .ok .zero b') : o.Warrants locked book b (o.emptyFill b.cash) := by
  have hthin : (∃ most, b.cap (book.bestSize o.intent.touchSide) = .ok most ∧ most ≤ .zero) → o.TooThin book b :=
    fun ⟨most, hmost, hle⟩ => cap_le_half_unit hv (Decimal.le_of_lt hp.size_pos) hmost hle
  unfold OrderIntent.fill at h
  unfold emptyFill
  by_cases hbuy : o.intent.isBuy = true
  · rw [if_pos hbuy] at h ⊢
    obtain ⟨hd, -, ⟨hq, -⟩ | ⟨fill, hq, hn, -⟩⟩ := buy_eq_ok_iff.1 h
    · exact ⟨hbuy, rfl, rfl, rfl, (short_of_quoteBuy hv hp.tradable hd hq).imp id (Or.imp id hthin)⟩
    · obtain ⟨-, -, -, -, hpos, -⟩ := quoteBuy_eq_some hq
      rw [← hn] at hpos
      exact absurd hpos (by decide)
  · rw [if_neg hbuy] at h ⊢
    refine ⟨by simpa using hbuy, rfl, ?_⟩
    obtain ⟨most, hmost, h⟩ := sellAll_eq_ok_iff.1 h
    obtain ⟨hq, -⟩ | ⟨fill, hq, hn, -⟩ := sell_eq_ok_iff.1 h
    · have hflat := isFlat_of_le_zero (h0 o.asset o.intent.side)
      exact (short_of_quoteSell hq).imp hflat fun hle => hthin ⟨most, hmost, hle⟩
    · obtain ⟨-, hpos, -⟩ := quoteSell_eq_some hq
      rw [← hn] at hpos
      exact absurd hpos (by decide)

/-- An order ends with a fill of something, or with a reason that is the case. -/
theorem filled_or_warranted {outcome : OrderOutcome} (hv : b.config.Valid) (h0 : b.Unshorted) (hb : book.Sound)
    (h : o.fillAfterDelay locked book b = .ok (outcome, book') b') :
    (∃ n, outcome = .filled n ∧ .zero < n) ∨ ∃ e, outcome = .rejected e ∧ o.Warrants locked book b e := by
  cases ending_of_ok h with
  | busy => exact .inr ⟨_, rfl, rfl, rfl⟩
  | traded hp ht ho =>
    obtain ⟨rfl, -, rfl⟩ | ⟨hpos, -⟩ := trade_eq_ok ht
    · obtain ⟨u, hfill⟩ := fill_of_trade ht
      exact .inr ⟨_, ho, warrants_of_emptyFill hv h0 hp hfill⟩
    · rw [answer, if_pos hpos] at ho
      exact .inl ⟨_, ho, hpos⟩
  | refused hp hr => exact .inr ⟨_, rfl, warrants_of_refusal hb hp hr⟩

end Order

namespace Session

open Broker

/-- A delayed order that is decided is filled with something, or what it is told is the case: on every account that a
run of operations reaches and every book that updates and fills reach. Missing cash and missing shares are not all that
their reasons tell of. An order gets them as well when it has asked for no more than dust, or when its touch is too
thin. -/
theorem reason_of_rejection {config : BrokerConfig} {visiting : Visiting} {ops : List Operation} {name : String}
    {us : List BookUpdate} {s : Session} {held : Option String} {n : ℕ} {d : DelayedOrder} {outcome : OrderOutcome}
    (hv : config.validate = .ok ()) (hr : (Broker.new config visiting).runAll ops = .ok s.broker)
    (hb : (Book.empty name).updateAll us = .ok (s.venueBook d.venue)) (hd : s.orders[n]? = some d)
    (hf : (s.fire held n d).orders[n]? = some { d with stage := .decided outcome }) :
    (∃ filled, outcome = .filled filled ∧ .zero < filled) ∨ ∃ e, outcome = .rejected e ∧
      d.order.Warrants (isHeld held d.venue) (s.venueBook d.venue) s.broker e := by
  obtain ⟨hunshorted, hconfig⟩ := unshorted_of_runAll hr
  have hvalid : s.broker.config.Valid := by
    rw [hconfig]
    exact BrokerConfig.validate_eq_ok_iff.1 hv
  obtain ⟨book, b, h⟩ := (decided_iff hd).1 hf
  exact Order.filled_or_warranted hvalid (hunshorted (unshorted_new config visiting))
    ((Book.Sound.empty name).updateAll hb) h

/-- A fill may take a tenth of what is shown. -/
def tenthOfTouch : BrokerConfig :=
  { BrokerConfig.standard with spreadPenalty := .zero, maxParticipationRate := .lit 1 1 }

/-- An account that bought ten dollars worth of rain. -/
def holder : Broker := after (buy "rain" .yes (.lit 5 1) (.lit 10 0) (.lit 1000 0)) (.new tenthOfTouch .oldestFirst)

/-- An order of that account on its way to a book with the smallest bid that can be written, and a large ask. -/
def underway (o : Order) : Session :=
  let book : Book := ⟨"rain", [⟨.lit 5 1, .lit 1 28⟩], [⟨.lit 6 1, .lit 1000 0⟩]⟩
  after (submit o (.live "rain") false) ((new holder 50).setBook "rain" book)

/-- The sale of all that is held. -/
def sellOut : Order := ⟨"rain", .sellYes, .lit 4 1, .zero⟩

/-- Half a cent for more of it. -/
def dustBuy : Order := ⟨"rain", .buyYes, .lit 7 1, .lit 5 3⟩

theorem reason_of_thin_sale :
    let s := underway sellOut
    let d : DelayedOrder := ⟨sellOut, .live "rain", 50, .pending, false⟩
    (Broker.new tenthOfTouch .oldestFirst).runAll [.buy "rain" .yes (.lit 5 1) (.lit 10 0) (.lit 1000 0)] =
        .ok s.broker ∧
      (Book.empty "rain").updateAll [.delta [⟨.lit 5 1, .lit 1 28⟩] [⟨.lit 6 1, .lit 1000 0⟩]] =
        .ok (s.venueBook d.venue) ∧
      s.orders[0]? = some d ∧
      (s.fire none 0 d).orders[0]? = some { d with stage := .decided (.rejected (.noPosition "rain")) } ∧
      sellOut.Warrants false (s.venueBook d.venue) s.broker (.noPosition "rain") := by
  intro s d
  have hbroker : s.broker = holder := broker_submit_of_delayed (by decide)
  have hbuy : (Operation.buy "rain" .yes (.lit 5 1) (.lit 10 0) (.lit 1000 0)).run (.new tenthOfTouch .oldestFirst) =
      .ok (some (.lit 20 0)) holder := by
    have hn : Decimal.lit 20 0 ∈
        (buy "rain" .yes (.lit 5 1) (.lit 10 0) (.lit 1000 0)).run' (.new tenthOfTouch .oldestFirst) := by
      decide +kernel
    exact run_map_eq_ok_iff.2 ⟨_, eq_ok_of_mem_run' hn, rfl⟩
  have hr : (Broker.new tenthOfTouch .oldestFirst).runAll [.buy "rain" .yes (.lit 5 1) (.lit 10 0) (.lit 1000 0)] =
      .ok s.broker := by
    rw [hbroker]
    unfold runAll
    rw [hbuy]
    rfl
  have hb : (Book.empty "rain").updateAll [.delta [⟨.lit 5 1, .lit 1 28⟩] [⟨.lit 6 1, .lit 1000 0⟩]] =
      .ok (s.venueBook d.venue) := by decide +kernel
  have hd : s.orders[0]? = some d := by decide +kernel
  have hf : (s.fire none 0 d).orders[0]? = some { d with stage := .decided (.rejected (.noPosition "rain")) } := by
    decide +kernel
  refine ⟨hr, hb, hd, hf, ?_⟩
  obtain ⟨_, ho, -⟩ | ⟨_, ho, hw⟩ := reason_of_rejection (by decide +kernel) hr hb hd hf
  · cases ho
  · cases ho
    exact hw

/-- With nine hundred and ninety dollars an order for half a cent is told of missing cash, and the sale of twenty shares
of missing shares. -/
theorem untrue_reasons :
    tenthOfTouch.validate = .ok () ∧
      ((underway dustBuy).wait none 0).1 =
        .outcome (.rejected (.insufficientFunds "rain" (.lit 5 3) (.lit 9900 1))) ∧
      Decimal.lit 5 3 ≤ .lit 9900 1 ∧
      ((underway sellOut).wait none 0).1 = .outcome (.rejected (.noPosition "rain")) ∧
      ((underway sellOut).broker.position "rain" .yes).shares = .lit 20 0 := by
  decide +kernel

end Session
end OutcomeMarket

import OutcomeMarket.Proofs.Order.Decision
import OutcomeMarket.Proofs.Order.Exclusion

/-! Limit prices. A delayed order looks at its target when it is decided, and fills only at a touch that is as good. An
order without latency never looks: it fills at the touch that it finds, whatever the target is. -/
namespace OutcomeMarket

open Broker

namespace Order

/-- The quote that an order finds is, in the terms of the order, as good as its target. -/
def MeetsTarget (o : Order) (book : Book) : Prop :=
  ∃ observed, o.intent.terms (book.bestPrice o.intent.touchSide) = .ok observed ∧ o.intent.Accepts observed o.target

variable {o : Order} {book book' : Book} {b b' : Broker} {quote dollars size n : Decimal} {locked : Bool}

theorem passes_iff : o.Passes book ↔ o.MeetsTarget book ∧ Tradable (book.bestPrice o.intent.touchSide) ∧
    .zero < book.bestSize o.intent.touchSide :=
  ⟨fun h => ⟨h.accepted, h.tradable, h.size_pos⟩, fun ⟨ha, ht, hs⟩ => ⟨ht, ha, hs⟩⟩

/-- What is filled after a delay has passed the checks, and would have been filled at once. -/
theorem filled_iff :
    (∃ book' b', o.fillAfterDelay locked book b = .ok (.filled n, book') b') ↔
      locked = false ∧ o.Passes book ∧ .zero < n ∧ ∃ book' b', o.fillNow false book b = .ok (.ok n, book') b' := by
  constructor
  · rintro ⟨book', b', h⟩
    cases ending_of_ok h with
    | traded hp ht ho =>
      obtain ⟨rfl, h0⟩ := answer_eq_filled_iff.1 ho.symm
      exact ⟨rfl, hp, h0, book', b', fillNow_eq_ok_iff.2 ⟨_, ht, rfl⟩⟩
  · rintro ⟨rfl, hp, h0, book', b', h⟩
    obtain ⟨_, ht, ⟨⟩⟩ := fillNow_eq_ok_iff.1 h
    refine ⟨book', b', ?_⟩
    rw [fillAfterDelay_of_passes hp, ht]
    dsimp only
    rw [answer_eq_filled_iff.2 ⟨rfl, h0⟩]

/-- A quote at which shares changed hands has a price in the terms of the order. -/
theorem exists_terms_of_fill (h : o.intent.fill o.asset quote dollars size b = .ok n b') (h0 : .zero < n) :
    ∃ observed, o.intent.terms quote = .ok observed := by
  unfold OrderIntent.fill at h
  split at h
  · obtain ⟨rfl, -⟩ | ⟨fill, -, hq, -⟩ := filled_of_buy h
    · exact absurd h0 (by decide)
    · obtain ⟨-, -, hp, -⟩ := quoteBuy_eq_some hq
      obtain ⟨observed, ho, -⟩ := OutcomeMarket.bind_eq_ok_iff.1 hp
      exact ⟨observed, ho⟩
  · obtain ⟨limit, -, h⟩ := sellAll_eq_ok_iff.1 h
    obtain ⟨rfl, -⟩ | ⟨fill, -, hq, -⟩ := filled_of_sell h
    · exact absurd h0 (by decide)
    · obtain ⟨hp, -⟩ := quoteSell_eq_some hq
      obtain ⟨observed, ho, -⟩ := OutcomeMarket.bind_eq_ok_iff.1 hp
      exact ⟨observed, ho⟩

end Order
namespace Session

variable {s s' : Session} {o : Order} {v : Venue} {locked : Bool} {n : Decimal}

/-- Without latency nothing depends on the target. -/
theorem submit_withTarget (hl : s.latency = 0) (target : Decimal) :
    submit { o with target := target } v locked s = submit o v locked s := by
  rw [submit_of_prompt hl, submit_of_prompt hl]
  rfl

theorem exists_terms_of_submit (hl : s.latency = 0) (h : submit o v locked s = .ok (.immediate n) s')
    (h0 : .zero < n) :
    ∃ observed, o.intent.terms ((s.venueBook v).bestPrice o.intent.touchSide) = .ok observed := by
  obtain ⟨r, book, b, hf, hanswer, -⟩ := submit_eq_ok_of_prompt hl h
  cases r with
  | error cause => cases hanswer
  | ok m =>
    cases hanswer
    cases locked with
    | true => cases hf
    | false =>
      obtain ⟨_, ht, ⟨⟩⟩ := Order.fillNow_eq_ok_iff.1 hf
      obtain ⟨u, hfill⟩ := Order.fill_of_trade ht
      exact Order.exists_terms_of_fill hfill h0

/-- A delayed order is filled exactly where an order without latency is, if the touch is tradable, for something and as
good as the target, and the book is not held. An order without latency does the same whatever its target is; when it is
filled, the touch is as good as the target for just those targets that accept it. -/
theorem limit_of_fill (s : Session) :
    (∀ held (n : ℕ) d filled, s.orders[n]? = some d →
      ((s.fire held n d).orders[n]? = some { d with stage := .decided (.filled filled) } ↔
        isHeld held d.venue = false ∧
          (d.order.MeetsTarget (s.venueBook d.venue) ∧
            Order.Tradable ((s.venueBook d.venue).bestPrice d.order.intent.touchSide) ∧
            .zero < (s.venueBook d.venue).bestSize d.order.intent.touchSide) ∧
          .zero < filled ∧
          ∃ book b, d.order.fillNow false (s.venueBook d.venue) s.broker = .ok (.ok filled, book) b)) ∧
    (s.latency = 0 → ∀ o v locked,
      (∀ target, submit { o with target := target } v locked s = submit o v locked s) ∧
      ∀ filled s', submit o v locked s = .ok (.immediate filled) s' → .zero < filled →
        ∃ observed, o.intent.terms ((s.venueBook v).bestPrice o.intent.touchSide) = .ok observed ∧
          ∀ target, ({ o with target := target } : Order).MeetsTarget (s.venueBook v) ↔
            o.intent.Accepts observed target) := by
  constructor
  · intro held n d filled hd
    rw [decided_iff hd, Order.filled_iff, Order.passes_iff]
  · intro hl o v locked
    refine ⟨submit_withTarget hl, fun filled s' h h0 => ?_⟩
    obtain ⟨observed, ho⟩ := exists_terms_of_submit hl h h0
    refine ⟨observed, ho, fun target => ⟨?_, fun ha => ⟨observed, ho, ha⟩⟩⟩
    rintro ⟨price, hp, ha⟩
    rw [ho] at hp
    cases hp
    exact ha

/-- A new session in which half a dollar is asked for rain. -/
def rainSession (latency : ℕ) : Session :=
  (new (.new { BrokerConfig.standard with spreadPenalty := .zero } .oldestFirst) latency).setBook "rain"
    ⟨"rain", [], [⟨.lit 5 1, .lit 1000 0⟩]⟩

/-- Ten dollars for rain at sixty cents at most, waiting. -/
def rainOrder : DelayedOrder := ⟨⟨"rain", .buyYes, .lit 6 1, .lit 10 0⟩, .live "rain", 50, .pending, false⟩

theorem limit_of_rainOrder :
    let waiting := after (submit rainOrder.order rainOrder.venue false) (rainSession 50)
    (waiting.orders[0]? = some rainOrder ∧
      (waiting.fire none 0 rainOrder).orders[0]? = some { rainOrder with stage := .decided (.filled (.lit 20 0)) } ∧
      rainOrder.order.MeetsTarget (waiting.venueBook rainOrder.venue) ∧
      ∃ book b, rainOrder.order.fillNow false (waiting.venueBook rainOrder.venue) waiting.broker =
        .ok (.ok (.lit 20 0), book) b) ∧
    (rainSession 0).latency = 0 ∧
      submit { rainOrder.order with target := .lit 1 1 } rainOrder.venue false (rainSession 0) =
        submit rainOrder.order rainOrder.venue false (rainSession 0) ∧
      ∃ s' observed,
        submit rainOrder.order rainOrder.venue false (rainSession 0) = .ok (.immediate (.lit 20 0)) s' ∧
        rainOrder.order.intent.terms (((rainSession 0).venueBook rainOrder.venue).bestPrice .ask) = .ok observed ∧
        ∀ target, ({ rainOrder.order with target := target } : Order).MeetsTarget
          ((rainSession 0).venueBook rainOrder.venue) ↔ OrderIntent.buyYes.Accepts observed target := by
  intro waiting
  have hd : waiting.orders[0]? = some rainOrder := by decide +kernel
  have hf : (waiting.fire none 0 rainOrder).orders[0]? =
      some { rainOrder with stage := .decided (.filled (.lit 20 0)) } := by decide +kernel
  obtain ⟨-, ⟨hmeets, -⟩, -, hnow⟩ := ((limit_of_fill waiting).1 none _ _ _ hd).1 hf
  have hn : Submission.immediate (.lit 20 0) ∈
      (submit rainOrder.order rainOrder.venue false).run' (rainSession 0) := by decide +kernel
  have hs := eq_ok_of_mem_run' hn
  obtain ⟨hany, hlimit⟩ := (limit_of_fill (rainSession 0)).2 rfl rainOrder.order rainOrder.venue false
  obtain ⟨observed, ho, ht⟩ := hlimit _ _ hs (by decide)
  exact ⟨⟨hd, hf, hmeets, hnow⟩, rfl, hany _, _, observed, hs, ho, ht⟩

/-- Without latency an order with a limit of forty cents is filled at fifty. -/
theorem filled_above_target :
    let o : Order := { rainOrder.order with target := .lit 4 1 }
    (∃ filled s', submit o (.live "rain") false (rainSession 0) = .ok (.immediate filled) s' ∧ .zero < filled) ∧
      ¬ o.MeetsTarget ((rainSession 0).venueBook (.live "rain")) := by
  intro o
  have hn : Submission.immediate (.lit 20 0) ∈ (submit o (.live "rain") false).run' (rainSession 0) := by
    decide +kernel
  refine ⟨⟨_, _, eq_ok_of_mem_run' hn, by decide⟩, ?_⟩
  rintro ⟨observed, ho, ha⟩
  cases ho
  exact absurd ha (by decide)

end Session
end OutcomeMarket

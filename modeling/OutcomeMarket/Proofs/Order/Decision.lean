import OutcomeMarket.Order.Execution
import OutcomeMarket.Proofs.Account.Faults
import OutcomeMarket.Proofs.Account.Fill

/-! How a delayed order is decided. If the quote it finds passes the checks, it does what an order without latency
does with the same book and account. If not, one record of the rejection is all that changes; and nothing else
leaves such a record. -/
namespace OutcomeMarket

open Broker

theorem OrderIntent.isRejection_rejection (i : OrderIntent) : i.rejection.isRejection = true := by cases i <;> rfl

namespace Order

/-- The quote that an order finds is tradable, as good as the target, and for something. -/
structure Passes (o : Order) (book : Book) : Prop where
  tradable : Tradable (book.bestPrice o.intent.touchSide)
  accepted : ∃ observed, o.intent.terms (book.bestPrice o.intent.touchSide) = .ok observed ∧
    o.intent.Accepts observed o.target
  size_pos : .zero < book.bestSize o.intent.touchSide

/-- The price on record and the answer, for an order whose quote does not pass. -/
inductive Refusal (o : Order) (book : Book) : Decimal → ExecutionError → Prop where
  | band (h : ¬ Tradable (book.bestPrice o.intent.touchSide)) :
      Refusal o book .zero (.staleOrRejectedPrice o.asset (book.bestPrice o.intent.touchSide))
  | race {observed : Decimal} (h : Tradable (book.bestPrice o.intent.touchSide))
      (ho : o.intent.terms (book.bestPrice o.intent.touchSide) = .ok observed) :
      Refusal o book observed (.missedExecutionRace o.asset o.target observed)

/-- What was added to the history holds no rejection. -/
def Unrefused (b b' : Broker) : Prop := ∃ ts, b'.trades = b.trades ++ ts ∧ ∀ t ∈ ts, t.kind.isRejection = false

variable {o : Order} {book book' : Book} {b b' : Broker} {quote dollars size n : Decimal} {f : Fault}

theorem fairOutcome_of_tradable (h : Tradable quote) : FairOutcome quote :=
  ⟨Decimal.le_trans (by decide) (Decimal.le_of_lt h.1), Decimal.le_trans (Decimal.le_of_lt h.2) (by decide)⟩

theorem not_tradable_emptyPrice (s : BookSide) : ¬ Tradable s.emptyPrice := by cases s <;> decide

theorem exists_terms (i : OrderIntent) (h : Tradable quote) : ∃ observed, i.terms quote = .ok observed := by
  unfold OrderIntent.terms
  cases i.side with
  | yes => exact ⟨quote, rfl⟩
  | no =>
    obtain ⟨h0, h1⟩ := fairOutcome_of_tradable h
    obtain ⟨d, hd, _⟩ := Decimal.exists_one_sub h0 h1
    exact ⟨d, hd⟩

theorem unrefused_of_trades_eq (h : b'.trades = b.trades) : Unrefused b b' :=
  ⟨[], h.trans (List.append_nil _).symm, by simp⟩

theorem unrefused_of_single {t : Trade} (h : b'.trades = b.trades ++ [t]) (ht : t.kind.isRejection = false) :
    Unrefused b b' := ⟨[t], h, by simpa using ht⟩

section Fill

/-- A fill answers nothing and notes the quote, or it answers shares and records them. -/
theorem fill_eq_ok (h : o.intent.fill o.asset quote dollars size b = .ok n b') :
    (n = .zero ∧ b' = b.withPrice o.asset quote) ∨
      (.zero < n ∧ ∃ t, b'.trades = b.trades ++ [t] ∧ t.kind.isRejection = false) := by
  obtain h | ⟨fill, rfl, h0, hb⟩ := booked_of_fill h
  · exact .inl h
  · obtain ⟨⟨price, value, _, ht⟩, _⟩ := filled_of_book hb
    exact .inr ⟨h0, _, ht, by cases o.intent <;> rfl⟩

theorem unrefused_of_interrupted {asset : String} {side : OutcomeSide} {fill : Fill}
    (h : Interrupted b asset side fill b') : Unrefused b b' := by
  cases h with
  | unpaid => exact unrefused_of_trades_eq rfl
  | unvalued => exact unrefused_of_single rfl (by cases side <;> rfl)

/-- A fill that faults leaves no rejection behind. -/
theorem unrefused_of_fill_error (h : o.intent.fill o.asset quote dollars size b = .error f b') :
    Unrefused b b' := by
  unfold OrderIntent.fill at h
  split at h
  · obtain rfl | rfl := state_of_buy_error h
    · exact unrefused_of_trades_eq rfl
    · exact unrefused_of_trades_eq rfl
  · obtain ⟨rfl, _⟩ | ⟨limit, _, h⟩ := state_of_sellAll_error h
    · exact unrefused_of_trades_eq rfl
    obtain ⟨rfl, _⟩ | ⟨fill, _, hi⟩ := state_of_sell_error h
    · exact unrefused_of_trades_eq rfl
    · obtain ⟨ts, ht, hk⟩ := unrefused_of_interrupted hi
      exact ⟨ts, ht, hk⟩

theorem fill_of_trade (h : o.trade book b = .ok (n, book') b') :
    ∃ u, o.intent.fill o.asset (book.bestPrice o.intent.touchSide) o.dollars (book.bestSize o.intent.touchSide) b =
      .ok n u := by
  unfold trade at h
  obtain ⟨filled, u, hf, h⟩ := run_bind_eq_ok_iff.1 h
  by_cases h0 : .zero < filled
  · rw [if_pos h0] at h
    obtain ⟨left, _, h⟩ := run_lift_bind_eq_ok_iff.1 h
    obtain ⟨⟨⟩, -⟩ := run_pure_eq_ok_iff.1 h
    exact ⟨u, hf⟩
  · rw [if_neg h0] at h
    obtain ⟨⟨⟩, -⟩ := run_pure_eq_ok_iff.1 h
    exact ⟨u, hf⟩

theorem trade_eq_ok (h : o.trade book b = .ok (n, book') b') :
    (n = .zero ∧ book' = book ∧ b' = b.withPrice o.asset (book.bestPrice o.intent.touchSide)) ∨
      (.zero < n ∧ book.consume o.intent.touchSide n = .ok book' ∧
        ∃ t, b'.trades = b.trades ++ [t] ∧ t.kind.isRejection = false) := by
  unfold trade at h
  obtain ⟨filled, u, hf, h⟩ := run_bind_eq_ok_iff.1 h
  by_cases h0 : .zero < filled
  · rw [if_pos h0] at h
    obtain ⟨left, hc, h⟩ := run_lift_bind_eq_ok_iff.1 h
    obtain ⟨⟨⟩, rfl⟩ := run_pure_eq_ok_iff.1 h
    obtain ⟨rfl, _⟩ | ⟨_, ht⟩ := fill_eq_ok hf
    · exact absurd h0 (by decide)
    · exact .inr ⟨h0, hc, ht⟩
  · rw [if_neg h0] at h
    obtain ⟨⟨⟩, rfl⟩ := run_pure_eq_ok_iff.1 h
    obtain ⟨rfl, hb⟩ | ⟨hp, _⟩ := fill_eq_ok hf
    · exact .inl ⟨rfl, rfl, hb⟩
    · exact absurd hp h0

/-- A trade faults in its fill, or when what was filled is taken out of the book. -/
theorem trade_eq_error (h : o.trade book b = .error f b') :
    o.intent.fill o.asset (book.bestPrice o.intent.touchSide) o.dollars (book.bestSize o.intent.touchSide) b =
      .error f b' ∨
    ∃ n, o.intent.fill o.asset (book.bestPrice o.intent.touchSide) o.dollars (book.bestSize o.intent.touchSide) b =
      .ok n b' ∧ book.consume o.intent.touchSide n = .error f := by
  unfold trade at h
  obtain h | ⟨filled, u, hf, h⟩ := run_bind_eq_error_iff.1 h
  · exact .inl h
  · split at h
    · obtain ⟨hc, rfl⟩ | ⟨_, _, h⟩ := run_lift_bind_eq_error_iff.1 h
      · exact .inr ⟨filled, hf, hc⟩
      · exact absurd h run_pure_ne_error
    · exact absurd h run_pure_ne_error

/-- What a trade does to the account its fill does. -/
theorem after_trade (o : Order) (book : Book) (b : Broker) : after (o.trade book) b =
    after (o.intent.fill o.asset (book.bestPrice o.intent.touchSide) o.dollars (book.bestSize o.intent.touchSide))
      b := by
  unfold trade
  refine after_bind_of_still fun filled u => ?_
  by_cases h0 : .zero < filled
  · rw [if_pos h0]
    cases book.consume o.intent.touchSide filled <;> rfl
  · rw [if_neg h0]
    rfl

theorem after_fillNow (o : Order) (book : Book) (b : Broker) :
    after (o.fillNow false book) b = after (o.trade book) b :=
  after_bind_of_still fun _ _ => rfl

end Fill

theorem fillNow_eq_ok_iff {answer : Except ExecutionError Decimal} :
    o.fillNow false book b = .ok (answer, book') b' ↔ ∃ n, o.trade book b = .ok (n, book') b' ∧ answer = .ok n := by
  unfold fillNow
  rw [if_neg (by decide), run_bind_eq_ok_iff]
  constructor
  · rintro ⟨⟨n, left⟩, u, ht, h⟩
    obtain ⟨⟨⟩, rfl⟩ := run_pure_eq_ok_iff.1 h
    exact ⟨n, ht, rfl⟩
  · rintro ⟨n, ht, rfl⟩
    exact ⟨(n, book'), b', ht, rfl⟩

theorem fillNow_eq_error_iff : o.fillNow false book b = .error f b' ↔ o.trade book b = .error f b' := by
  unfold fillNow
  rw [if_neg (by decide), run_bind_eq_error_iff]
  constructor
  · rintro (h | ⟨_, _, _, h⟩)
    · exact h
    · exact absurd h run_pure_ne_error
  · exact .inl

theorem fillAfterDelay_of_locked : o.fillAfterDelay true book b = .ok (.rejected (.bookBusy o.asset), book) b := rfl

/-- The answer to an order that was traded. -/
def answer (o : Order) (n cash : Decimal) : OrderOutcome :=
  if .zero < n then .filled n else .rejected (o.emptyFill cash)

theorem fillAfterDelay_of_passes (h : o.Passes book) : o.fillAfterDelay false book b =
    match o.trade book b with
    | .ok (n, book') b' => .ok (o.answer n b'.cash, book') b'
    | .error f b' => .error f b' := by
  obtain ⟨observed, ho, ha⟩ := h.accepted
  have hs : ¬ (¬ o.intent.Accepts observed o.target ∨ book.bestSize o.intent.touchSide ≤ .zero) := by
    rintro (hn | hle)
    · exact hn ha
    · exact absurd h.size_pos (Decimal.not_lt.2 hle)
  unfold fillAfterDelay
  rw [if_neg (by decide)]
  dsimp only
  rw [if_neg (not_not.2 h.tradable), ho]
  change (if _ then _ else _ : BrokerM (OrderOutcome × Book)) b = _
  rw [if_neg hs]
  simp only [bind, EStateM.bind]
  cases o.trade book b with
  | error f b' => rfl
  | ok traded b' =>
    obtain ⟨n, left⟩ := traded
    unfold answer
    dsimp only
    split <;> rfl

/-- The rejection of an order can always be put on record. -/
theorem run_reject (o : Order) (price : Decimal) (b : Broker) : reject o.asset o.intent.rejection price b =
    .ok () (b.withRecord o.asset o.intent.rejection price .zero .zero .zero) := by
  unfold reject ensure
  rw [if_pos o.intent.isRejection_rejection]
  rfl

/-- An order that does not pass is recorded as rejected, and that is all. -/
theorem fillAfterDelay_of_not_passes (h : ¬ o.Passes book) : ∃ price cause, o.Refusal book price cause ∧
    o.fillAfterDelay false book b =
      .ok (.rejected cause, book) (b.withRecord o.asset o.intent.rejection price .zero .zero .zero) := by
  by_cases ht : Tradable (book.bestPrice o.intent.touchSide)
  · obtain ⟨observed, ho⟩ := exists_terms o.intent ht
    have hs : ¬ o.intent.Accepts observed o.target ∨ book.bestSize o.intent.touchSide ≤ .zero := by
      by_contra hn
      simp only [not_or, not_not, Decimal.not_le] at hn
      exact h ⟨ht, ⟨observed, ho, hn.1⟩, hn.2⟩
    refine ⟨observed, _, .race ht ho, ?_⟩
    unfold fillAfterDelay
    rw [if_neg (by decide)]
    dsimp only
    rw [if_neg (not_not.2 ht), ho]
    change (if _ then _ else _ : BrokerM (OrderOutcome × Book)) b = _
    rw [if_pos hs]
    exact run_bind_eq_ok_iff.2 ⟨(), _, o.run_reject observed b, rfl⟩
  · refine ⟨.zero, _, .band ht, ?_⟩
    unfold fillAfterDelay
    rw [if_neg (by decide)]
    dsimp only
    rw [if_pos ht]
    exact run_bind_eq_ok_iff.2 ⟨(), _, o.run_reject .zero b, rfl⟩

/-- How a delayed order ends if nothing faults: the book is locked, or the order is traded, or its quote is refused and
that is put on record. -/
inductive Ending (o : Order) (book : Book) (b : Broker) : Bool → OrderOutcome → Book → Broker → Prop where
  | busy : Ending o book b true (.rejected (.bookBusy o.asset)) book b
  | traded {n : Decimal} {outcome : OrderOutcome} {book' : Book} {b' : Broker} (hp : o.Passes book)
      (ht : o.trade book b = .ok (n, book') b') (ho : outcome = o.answer n b'.cash) :
      Ending o book b false outcome book' b'
  | refused {price : Decimal} {cause : ExecutionError} (hp : ¬ o.Passes book) (hr : o.Refusal book price cause) :
      Ending o book b false (.rejected cause) book (b.withRecord o.asset o.intent.rejection price .zero .zero .zero)

theorem ending_of_ok {locked : Bool} {outcome : OrderOutcome}
    (h : o.fillAfterDelay locked book b = .ok (outcome, book') b') : o.Ending book b locked outcome book' b' := by
  cases locked with
  | true =>
    rw [fillAfterDelay_of_locked] at h
    cases h
    exact .busy
  | false =>
    by_cases hp : o.Passes book
    · rw [fillAfterDelay_of_passes hp] at h
      split at h
      · rename_i ht
        cases h
        exact .traded hp ht rfl
      · cases h
    · obtain ⟨price, cause, hr, hf⟩ := fillAfterDelay_of_not_passes (b := b) hp
      rw [hf] at h
      cases h
      exact .refused hp hr

theorem Refusal.isRaceRejection {price : Decimal} {cause : ExecutionError} (h : o.Refusal book price cause) :
    cause.isRaceRejection = true := by
  cases h <;> rfl

theorem isRaceRejection_emptyFill (o : Order) (cash : Decimal) : (o.emptyFill cash).isRaceRejection = false := by
  unfold emptyFill
  split <;> rfl

theorem answer_eq_filled_iff {cash m : Decimal} : o.answer n cash = .filled m ↔ n = m ∧ .zero < m := by
  unfold answer
  split
  · rename_i h
    constructor
    · rintro ⟨⟩
      exact ⟨rfl, h⟩
    · rintro ⟨rfl, _⟩
      rfl
  · rename_i h
    constructor
    · exact nofun
    · rintro ⟨rfl, h'⟩
      exact absurd h' h

theorem answer_eq_rejected {cash : Decimal} {cause : ExecutionError} (h : o.answer n cash = .rejected cause) :
    ¬ .zero < n ∧ cause.isRaceRejection = false := by
  unfold answer at h
  split at h
  · cases h
  · rename_i h0
    cases h
    exact ⟨h0, o.isRaceRejection_emptyFill cash⟩

/-- Traded orders leave no rejection on record. -/
theorem unrefused_of_passes (h : o.Passes book) : Unrefused b (after (o.fillAfterDelay false book) b) := by
  have hd := fillAfterDelay_of_passes (b := b) h
  cases ht : o.trade book b with
  | ok traded b' =>
    obtain ⟨n, left⟩ := traded
    rw [ht] at hd
    rw [after_of_ok hd]
    obtain ⟨_, _, rfl⟩ | ⟨_, _, t, hrec, hk⟩ := trade_eq_ok ht
    · exact unrefused_of_trades_eq rfl
    · exact unrefused_of_single hrec hk
  | error f b' =>
    rw [ht] at hd
    rw [after_of_error hd]
    obtain hf | ⟨n, hf, _⟩ := trade_eq_error ht
    · exact unrefused_of_fill_error hf
    · obtain ⟨_, rfl⟩ | ⟨_, t, hrec, hk⟩ := fill_eq_ok hf
      · exact unrefused_of_trades_eq rfl
      · exact unrefused_of_single hrec hk

/-- A rejection is on record exactly if the order was refused by the checks. -/
theorem rejection_recorded_iff (o : Order) (locked : Bool) (book : Book) (b : Broker) :
    ∃ ts, (after (o.fillAfterDelay locked book) b).trades = b.trades ++ ts ∧
      ((∃ t ∈ ts, t.kind.isRejection = true) ↔ ∃ cause book' b',
        o.fillAfterDelay locked book b = .ok (.rejected cause, book') b' ∧ cause.isRaceRejection = true) := by
  cases locked with
  | true =>
    refine ⟨[], (List.append_nil _).symm, iff_of_false (by simp) ?_⟩
    rintro ⟨cause, book', b', h, hc⟩
    rw [fillAfterDelay_of_locked] at h
    cases h
    cases hc
  | false =>
    by_cases hp : o.Passes book
    · obtain ⟨ts, ht, hk⟩ := unrefused_of_passes (b := b) hp
      refine ⟨ts, ht, iff_of_false ?_ ?_⟩
      · rintro ⟨t, hm, hr⟩
        rw [hk t hm] at hr
        cases hr
      · rintro ⟨cause, book', b', h, hc⟩
        rw [fillAfterDelay_of_passes hp] at h
        split at h
        · injection h with hans
          rw [(answer_eq_rejected (congrArg Prod.fst hans)).2] at hc
          cases hc
        · cases h
    · obtain ⟨price, cause, hr, h⟩ := fillAfterDelay_of_not_passes (b := b) hp
      rw [after_of_ok h]
      refine ⟨[_], rfl, iff_of_true ⟨_, List.mem_singleton_self _, o.intent.isRejection_rejection⟩ ?_⟩
      exact ⟨cause, _, _, h, hr.isRaceRejection⟩

/-- An order that ends without a fill for another cause has at most noted the quote. -/
theorem still_of_rejected {locked : Bool} {cause : ExecutionError}
    (h : o.fillAfterDelay locked book b = .ok (.rejected cause, book') b') (hc : cause.isRaceRejection = false) :
    book' = book ∧ (b' = b ∨ b' = b.withPrice o.asset (book.bestPrice o.intent.touchSide)) := by
  cases ending_of_ok h with
  | busy => exact ⟨rfl, .inl rfl⟩
  | traded hp ht ho =>
    obtain ⟨_, hbook, hb⟩ | ⟨hpos, _⟩ := trade_eq_ok ht
    · exact ⟨hbook, .inr hb⟩
    · exact absurd hpos (answer_eq_rejected ho.symm).1
  | refused hp hr =>
    rw [hr.isRaceRejection] at hc
    cases hc

/-- A delayed order does what an immediate one does if the quote passes; else it is recorded as rejected and
nothing else happens. A rejection is on record exactly if the checks refused the order, and an order that ends
without a fill for another reason changes nothing but a price. -/
theorem decision_of_fillAfterDelay (o : Order) (book : Book) (b : Broker) :
    (o.Passes book →
      (∀ answer book' b', o.fillNow false book b = .ok (answer, book') b' → ∃ outcome,
        o.fillAfterDelay false book b = .ok (outcome, book') b' ∧
        ∀ n, outcome = .filled n ↔ answer = .ok n ∧ .zero < n) ∧
      ∀ f b', o.fillNow false book b = .error f b' → o.fillAfterDelay false book b = .error f b') ∧
    (¬ o.Passes book → ∃ price cause, o.Refusal book price cause ∧ o.fillAfterDelay false book b =
      .ok (.rejected cause, book) (b.withRecord o.asset o.intent.rejection price .zero .zero .zero)) ∧
    ∀ locked,
      (∃ ts, (after (o.fillAfterDelay locked book) b).trades = b.trades ++ ts ∧
        ((∃ t ∈ ts, t.kind.isRejection = true) ↔ ∃ cause book' b',
          o.fillAfterDelay locked book b = .ok (.rejected cause, book') b' ∧ cause.isRaceRejection = true)) ∧
      ∀ cause book' b', o.fillAfterDelay locked book b = .ok (.rejected cause, book') b' →
        cause.isRaceRejection = false →
        book' = book ∧ (b' = b ∨ b' = b.withPrice o.asset (book.bestPrice o.intent.touchSide)) := by
  refine ⟨fun hp => ⟨?_, ?_⟩, fillAfterDelay_of_not_passes, fun locked => ⟨?_, ?_⟩⟩
  · intro answer book' b' h
    obtain ⟨n, ht, rfl⟩ := fillNow_eq_ok_iff.1 h
    refine ⟨o.answer n b'.cash, ?_, ?_⟩
    · rw [fillAfterDelay_of_passes hp, ht]
    · intro m
      rw [answer_eq_filled_iff, Except.ok.injEq]
  · intro f b' h
    rw [fillAfterDelay_of_passes hp, fillNow_eq_error_iff.1 h]
  · exact o.rejection_recorded_iff locked book b
  · intro cause book' b' h hc
    exact still_of_rejected h hc

/-- Two dollars for shares on offer at fifty cents: the delayed order is filled like the immediate one. -/
theorem filled_after_delay :
    let o : Order := ⟨"rain", .buyYes, .lit 60 2, .lit 2 0⟩
    let book : Book := ⟨"rain", [], [⟨.lit 50 2, .lit 1000 0⟩]⟩
    o.Passes book ∧ ∃ n book' b', o.fillNow false book (.new .standard .oldestFirst) = .ok (.ok n, book') b' ∧
      o.fillAfterDelay false book (.new .standard .oldestFirst) = .ok (.filled n, book') b' := by
  intro o book
  have hp : o.Passes book := ⟨by decide, ⟨.lit 50 2, rfl, by decide⟩, by decide⟩
  have hn : (match o.fillNow false book (.new .standard .oldestFirst) with
      | .ok (.ok n, _) _ => decide (.zero < n)
      | _ => false) = true := by decide +kernel
  split at hn
  · rename_i n book' b' h
    obtain ⟨outcome, hd, hf⟩ := ((decision_of_fillAfterDelay o book (.new .standard .oldestFirst)).1 hp).1 _ _ _ h
    rw [(hf n).2 ⟨rfl, of_decide_eq_true hn⟩] at hd
    exact ⟨hp, n, book', b', h, hd⟩
  · cases hn

end Order
end OutcomeMarket

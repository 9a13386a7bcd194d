import OutcomeMarket.Live.Feed
import OutcomeMarket.Proofs.Account.Valuation
import OutcomeMarket.Proofs.Live.Handling
import OutcomeMarket.Proofs.Order.Liquidity
import OutcomeMarket.Proofs.Strategy.Conduct

/-! The worth of the account over a whole run of live trading. Prices come from books and from nowhere else: as the
middle of a book, and as the quote that an order trades at. Books are sound whatever is written on the feed and whatever
orders take out of them. So the account stays well valued, over any interleaving of events, orders and time. -/
namespace OutcomeMarket

open Broker

namespace Order

variable {config : BrokerConfig} {o : Order} {book : Book} {b : Broker}

/-- What an order takes out of its book has no part in what it does to the account. -/
theorem wellValued_after_trade (h : b.WellValued config) (hb : book.Sound) :
    (after (o.trade book) b).WellValued config := by
  have hq : FairOutcome (book.bestPrice o.intent.touchSide) := hb.bestPrice_bounds o.intent.touchSide
  rw [after_trade]
  unfold OrderIntent.fill
  by_cases hbuy : o.intent.isBuy = true
  · rw [if_pos hbuy]
    exact h.after_buy hq
  · rw [if_neg hbuy]
    exact h.after_sellAll hq

theorem wellValued_after_fillNow (locked : Bool) (h : b.WellValued config) (hb : book.Sound) :
    (after (o.fillNow locked book) b).WellValued config := by
  cases locked with
  | true => exact h
  | false =>
    rw [after_fillNow]
    exact wellValued_after_trade h hb

theorem wellValued_after_fillAfterDelay (locked : Bool) (h : b.WellValued config) (hb : book.Sound) :
    (after (o.fillAfterDelay locked book) b).WellValued config := by
  cases locked with
  | true => exact h
  | false =>
    by_cases hp : o.Passes book
    · have ht := wellValued_after_trade (o := o) h hb
      unfold after at ht ⊢
      rw [fillAfterDelay_of_passes hp]
      cases hx : o.trade book b with
      | ok traded u =>
        rw [hx] at ht
        exact ht
      | error f u =>
        rw [hx] at ht
        exact ht
    · obtain ⟨price, cause, -, hf⟩ := fillAfterDelay_of_not_passes (b := b) hp
      rw [after_of_ok hf]
      exact h.rebooked (h.sound.credit (.refused o.intent.isRejection_rejection)) rfl rfl rfl rfl

end Order

namespace Session

/-- Whether an order trades on a book of the session. -/
def IsLive (v : Venue) : Prop := ∃ asset, v = .live asset

/-- A session with a well valued account and sound books, on which all of its orders trade. -/
structure WellValued (config : BrokerConfig) (s : Session) : Prop where
  broker : s.broker.WellValued config
  books : ∀ asset, (s.book asset).Sound
  live : ∀ (n : ℕ) (d : DelayedOrder), s.orders[n]? = some d → IsLive d.venue

variable {config : BrokerConfig} {s s' : Session} {b : Broker} {book : Book} {o : Order} {v : Venue}
  {d : DelayedOrder} {n : ℕ} {held : Option String} {locked : Bool} {answer : Submission}

namespace WellValued

theorem venueBook (h : s.WellValued config) (hv : IsLive v) : (s.venueBook v).Sound := by
  obtain ⟨asset, rfl⟩ := hv
  exact h.books asset

theorem setBook (h : s.WellValued config) (asset : String) (hb : book.Sound) :
    (s.setBook asset book).WellValued config := by
  refine ⟨h.broker, fun other => ?_, h.live⟩
  rw [book_setBook]
  split
  · exact hb
  · exact h.books other

theorem leaveBook (h : s.WellValued config) (v : Venue) (hb : book.Sound) : (s.leaveBook v book).WellValued config := by
  cases v with
  | live asset => exact h.setBook asset hb
  | own old => exact h

theorem withBroker (h : s.WellValued config) (hb : b.WellValued config) :
    { s with broker := b }.WellValued config := ⟨hb, h.books, h.live⟩

theorem rewrite (h : s.WellValued config) (hv : IsLive d.venue) (n : ℕ) (f : InFlight) :
    { s with inFlight := f, orders := s.orders.setIfInBounds n d }.WellValued config := by
  refine ⟨h.broker, h.books, fun m d' hd => ?_⟩
  have hd : (s.orders.setIfInBounds n d)[m]? = some d' := hd
  rw [Array.getElem?_setIfInBounds] at hd
  split at hd
  · split at hd
    · cases hd
      exact hv
    · cases hd
  · exact h.live m d' hd

theorem finish (h : s.WellValued config) (hv : IsLive d.venue) (n : ℕ) (stage : Stage) :
    (s.finish n d stage).WellValued config := by
  have hv : IsLive { d with stage := stage }.venue := hv
  exact h.rewrite hv n _

theorem delay (h : s.WellValued config) (o : Order) (hv : IsLive v) : (s.delay o v).2.WellValued config := by
  cases hf : s.inFlight.acquire? o.asset with
  | none =>
    rw [delay_of_inFlight hf]
    exact h
  | some f =>
    rw [delay_of_free hf]
    refine ⟨h.broker, h.books, fun m d hd => ?_⟩
    have hd : (s.orders.push ⟨o, v, s.now + timer s.latency, .pending, false⟩)[m]? = some d := hd
    rw [Array.getElem?_push] at hd
    split at hd
    · cases hd
      exact hv
    · exact h.live m d hd

theorem submit (h : s.WellValued config) (hv : IsLive v) (hs : submit o v locked s = .ok answer s') :
    s'.WellValued config := by
  by_cases hl : s.latency = 0
  · obtain ⟨r, left, b, hf, -, rfl⟩ := submit_eq_ok_of_prompt hl hs
    have hbook := h.venueBook hv
    have hb := Order.wellValued_after_fillNow (o := o) locked h.broker hbook
    rw [after_of_ok hf] at hb
    have hleft := (Order.leaves_of_fillNow h.broker.sound.config_valid hbook hf).sound hbook
    exact (h.withBroker hb).leaveBook v hleft
  · rw [submit_eq_ok_of_delayed hl hs]
    exact h.delay o hv

/-- The end of a delayed order, also by a fault. -/
theorem fire (h : s.WellValued config) (hd : s.orders[n]? = some d) : (s.fire held n d).WellValued config := by
  have hv := h.live n d hd
  have hbook := h.venueBook hv
  have hb := Order.wellValued_after_fillAfterDelay (o := d.order) (isHeld held d.venue) h.broker hbook
  cases hf : d.order.fillAfterDelay (isHeld held d.venue) (s.venueBook d.venue) s.broker with
  | ok r b =>
    obtain ⟨outcome, left⟩ := r
    rw [after_of_ok hf] at hb
    rw [fire_of_ok hf]
    have hleft := (Order.leaves_of_fillAfterDelay h.broker.sound.config_valid hbook hf).sound hbook
    exact ((h.withBroker hb).leaveBook d.venue hleft).finish hv n _
  | error f b =>
    rw [after_of_error hf] at hb
    rw [fire_of_error hf]
    exact (h.withBroker hb).finish hv n _

theorem strides (h : s.WellValued config) (hs : Strides s s') : s'.WellValued config := by
  induction hs with
  | refl => exact h
  | tail _ hs ih =>
    cases hs with
    | turned now => exact ⟨ih.broker, ih.books, ih.live⟩
    | @rewritten n d d' f hd _ hv => exact ih.rewrite (hv ▸ ih.live n d hd) n f
    | fired held hd => exact ih.fire hd

/-- The middle of a sound book is a fair price. -/
theorem notePrice (h : s.WellValued config) (asset : String) : (s.notePrice asset).WellValued config := by
  obtain ⟨mid, hmid, -, hbounds⟩ := (h.books asset).mid
  unfold Session.notePrice
  rw [hmid]
  cases mid with
  | none => exact h
  | some price =>
    obtain ⟨-, -, h0, h1⟩ := hbounds price rfl
    exact h.withBroker (h.broker.withPrice ⟨h0, h1⟩)

theorem receive (h : s.WellValued config) (e : BookEvent) : (s.receive e).WellValued config :=
  (h.setBook e.asset ((h.books e.asset).receive e)).notePrice e.asset

theorem deeds (h : s.WellValued config) (hd : Relation.ReflTransGen (Deed (fun _ => False) fun _ v => IsLive v) s s') :
    s'.WellValued config := by
  induction hd with
  | refl => exact h
  | tail _ hd ih =>
    cases hd with
    | operated hop => exact hop.elim
    | submitted hv hs => exact ih.submit hv hs
    | strode hs => exact ih.strides (.single hs)

end WellValued
end Session

/-- A strategy that acts by orders for live books only. -/
def Strategy.OnlySubmits {ν ω σ : Type} (s : Strategy ν ω σ) : Prop :=
  s.Uses (fun _ => False) fun _ v => Session.IsLive v

namespace Trader

variable {ν σ : Type}

/-- What happens to a trader, as long as nothing faults: an event is handled, which may end in an error of its
strategy, time passes, an order is to be cancelled, or the heart beats. -/
inductive Step (t : Trader ν σ) : Trader ν σ → Prop where
  | handled {make : Maker ν σ} {e : BookEvent} {t' : Trader ν σ} (hm : ∀ asset, (make asset).1.OnlySubmits)
      (h : handle make e t = .ok () t') : Step t t'
  | failed {make : Maker ν σ} {e : BookEvent} {t' : Trader ν σ} {err : StrategyError}
      (hm : ∀ asset, (make asset).1.OnlySubmits) (h : handle make e t = .error (.error err) t') : Step t t'
  | passed (held : Option String) (time : ℕ) : Step t { t with session := t.session.runUntil held time }
  | aborted (n : ℕ) : Step t { t with session := t.session.abort n }
  | beat {t' : Trader ν σ} (h : heartbeat t = .ok () t') : Step t t'

/-- The states that a trader with this configuration comes to. -/
def Reached (c : TraderConfig) (t : Trader ν σ) : Prop :=
  ∃ visiting t₀, new c visiting = .ok t₀ ∧ Relation.ReflTransGen Step t₀ t

/-- A trader with a well valued session, whose strategies act by orders only. -/
structure WellValued (config : BrokerConfig) (t : Trader ν σ) : Prop where
  session : t.session.WellValued config
  desks : ∀ asset d, t.desks.find? asset = some d → d.strategy.OnlySubmits

variable {config : BrokerConfig} {c : TraderConfig} {visiting : Visiting} {make : Maker ν σ} {e : BookEvent}
  {t t' : Trader ν σ}

theorem wellValued_of_new (h : new c visiting = .ok t) : t.WellValued c.broker := by
  unfold new at h
  obtain ⟨_, hv, h⟩ := bind_eq_ok_iff.1 h
  cases h
  unfold TraderConfig.validate at hv
  obtain ⟨_, hb, -⟩ := bind_eq_ok_iff.1 hv
  have hvalid : c.broker.Valid := BrokerConfig.validate_eq_ok_iff.1 (mapError_eq_ok_iff.1 hb)
  refine ⟨⟨wellValued_new hvalid visiting, fun asset => Book.Sound.empty asset, fun n d hd => ?_⟩, fun asset d hd => ?_⟩
  · cases hd
  · cases hd

namespace WellValued

theorem deskFor (h : t.WellValued config) (hm : ∀ asset, (make asset).1.OnlySubmits) (asset : String) :
    (t.deskFor make asset).strategy.OnlySubmits := by
  unfold Trader.deskFor
  cases hd : t.desks.find? asset with
  | some d => exact h.desks asset d hd
  | none => exact hm asset

theorem restore (h : t.WellValued config) (asset : String) {d : Desk ν σ} {w : Workspace ν}
    (hd : d.strategy.OnlySubmits) (hw : w.session.WellValued config) : (t.restore asset d w).WellValued config := by
  refine ⟨hw, fun other d' hd' => ?_⟩
  have hd' : (t.desks.insert asset { d with context := w.context }).find? other = some d' := hd'
  rw [TextMap.find?_insert] at hd'
  split at hd'
  · cases hd'
    exact hd
  · exact h.desks other d' hd'

theorem receive (h : t.WellValued config) (e : BookEvent) : (t.receive e).WellValued config := by
  refine ⟨h.session.receive e, ?_⟩
  rw [(receive_eq e t).1]
  exact h.desks

theorem consult (h : t.WellValued config) (asset : String) : (t.consult asset).WellValued config := by
  unfold Trader.consult
  split <;> exact ⟨h.session, h.desks⟩

/-- However its strategy answers, an event that is handled without a fault leaves the trader well valued. -/
theorem handled (h : t.WellValued config) (hm : ∀ asset, (make asset).1.OnlySubmits)
    (hf : ∀ f u, handle make e t ≠ .error (.fault f) u) : (after (handle make e) t).WellValued config := by
  have hr := h.receive e
  have hd := hr.deskFor hm e.asset
  unfold after
  rw [handle_eq (h.session.books e.asset), serve_eq] at hf ⊢
  cases hrun : ((t.receive e).reaction make e).run ((t.receive e).workplace make e.asset) with
  | ok a w =>
    obtain ⟨answer, state⟩ := a
    have hw : w.session.WellValued config := hr.session.deeds ((hd _ _).deeds hrun)
    have hrest : (((t.receive e).consult e.asset).restore e.asset
        { (t.receive e).deskFor make e.asset with state := state } w).WellValued config :=
      (hr.consult e.asset).restore e.asset hd hw
    dsimp only
    cases tolerate answer with
    | ok u => exact hrest
    | error err => exact hrest
  | error f w =>
    rw [hrun] at hf
    exact absurd rfl (hf f _)

theorem heartbeat (h : t.WellValued config) (hb : heartbeat t = .ok () t') : t'.WellValued config := by
  obtain ⟨_, _, -, -, rfl⟩ := exists_account_of_heartbeat hb
  refine ⟨h.session, fun asset d' hd' => ?_⟩
  have hd' : (t.desks.map fun d => { d with context := d.context.drain.2 }).find? asset = some d' := hd'
  rw [TextMap.find?_map] at hd'
  obtain ⟨d, hd, rfl⟩ := Option.map_eq_some_iff.1 hd'
  exact h.desks asset d hd

theorem step (h : t.WellValued config) (hs : Step t t') : t'.WellValued config := by
  cases hs with
  | handled hm hh =>
    rw [← after_of_ok hh]
    refine h.handled hm fun f u hf => ?_
    rw [hh] at hf
    cases hf
  | failed hm hh =>
    rw [← after_of_error hh]
    refine h.handled hm fun f u hf => ?_
    rw [hh] at hf
    cases hf
  | passed held time => exact ⟨h.session.strides (Session.strides_runUntil held t.session time), h.desks⟩
  | aborted n => exact ⟨h.session.strides (Session.strides_abort t.session n), h.desks⟩
  | beat hb => exact h.heartbeat hb

end WellValued

theorem wellValued_of_steps (h : t.WellValued config) (hs : Relation.ReflTransGen Step t t') :
    t'.WellValued config := by
  induction hs with
  | refl => exact h
  | tail _ hs ih => exact ih.step hs

end Trader

namespace Run

open Trader

variable {ν σ α β : Type} {make : Maker ν σ} {x : RunM ν σ α} {k : α → RunM ν σ β}

/-- What a part of a run does to its trader is made of steps, unless it faults. -/
def Steps (x : RunM ν σ α) : Prop := ∀ r a r', x r = .ok a r' → Relation.ReflTransGen Step r.trader r'.trader

theorem steps_pure (a : α) : Steps (pure a : RunM ν σ α) := by
  intro r a' r' h
  obtain ⟨-, rfl⟩ := run_pure_eq_ok_iff.1 h
  exact .refl

theorem Steps.bind (hx : Steps x) (hk : ∀ a, Steps (k a)) : Steps (x >>= k) := by
  intro r b r' h
  obtain ⟨a, u, hu, h⟩ := run_bind_eq_ok_iff.1 h
  exact (hx r a u hu).trans (hk a u b r' h)

theorem steps_modify {g : Run ν σ → Run ν σ} (hg : ∀ r, (g r).trader = r.trader) :
    Steps (modify g : RunM ν σ Unit) := by
  intro r a r' h
  rw [← run_modify_eq_ok_iff.1 h, hg]

theorem steps_get_bind {k : Run ν σ → RunM ν σ β} (hk : ∀ r, Steps (k r)) : Steps (get >>= k) := by
  intro r b r' h
  exact hk r r b r' h

theorem steps_handle (hm : ∀ asset, (make asset).1.OnlySubmits) (e : BookEvent) :
    Steps (onTrader (Trader.handle make e)) := by
  intro r a r' h
  unfold onTrader at h
  split at h
  · rename_i hh
    cases h
    exact .single (.handled hm hh)
  · cases h
  · rename_i hh
    cases h
    exact .single (.failed hm hh)

theorem steps_heartbeat : Steps (onTrader heartbeat : RunM ν σ Unit) := by
  intro r a r' h
  unfold onTrader at h
  split at h
  · rename_i hh
    cases h
    exact .single (.beat hh)
  · cases h
  · rename_i hh
    obtain ⟨_, _, -, -, hok⟩ | ⟨f, herror⟩ := heartbeat_cases r.trader
    · rw [hok] at hh
      cases hh
    · rw [herror] at hh
      cases hh

theorem steps_runUntil (time : ℕ) : Steps (runUntil time : RunM ν σ Unit) := by
  intro r a r' h
  rw [← run_modify_eq_ok_iff.1 h]
  exact .single (.passed none time)

theorem steps_finish : Steps (finish : RunM ν σ Unit) := by
  intro r a r' h
  obtain ⟨snapshot, -, h⟩ := run_checked_bind_eq_ok_iff.1 h
  rw [← run_modify_eq_ok_iff.1 h]

theorem steps_stop : Steps (stop : RunM ν σ Unit) := steps_heartbeat.bind fun _ => steps_finish

theorem steps_stopUnlessEnded : Steps (do if (← get).ended.isNone then stop : RunM ν σ Unit) := by
  refine steps_get_bind fun r => ?_
  split
  · exact steps_stop
  · exact steps_pure _

theorem steps_beats (interval target fuel : ℕ) : Steps (beats interval target fuel : RunM ν σ Unit) := by
  induction fuel with
  | zero => exact steps_pure _
  | succ fuel ih =>
    refine steps_get_bind fun r => ?_
    dsimp only
    split
    · refine (steps_runUntil _).bind fun _ => steps_heartbeat.bind fun _ => ?_
      refine Steps.bind (steps_modify ?_) fun _ => ih
      exact fun _ => rfl
    · exact steps_pure _

theorem steps_sleep (interval ms : ℕ) : Steps (sleep interval ms : RunM ν σ Unit) := by
  refine steps_get_bind fun r => ?_
  dsimp only
  split
  · exact (steps_beats interval _ _).bind fun _ => steps_runUntil _
  · exact steps_runUntil _

theorem steps_item (hm : ∀ asset, (make asset).1.OnlySubmits) (interval : ℕ) (i : FeedItem) :
    Steps (item make interval i) := by
  cases i with
  | sleep ms => exact steps_sleep interval ms
  | event e =>
    refine steps_get_bind fun r => ?_
    split
    · exact steps_handle hm e
    · exact steps_pure _
  | shutdown value =>
    refine steps_get_bind fun r => ?_
    split
    · cases value with
      | true => exact steps_stop
      | false => exact steps_pure _
    · exact steps_pure _
  | loseShutdown => exact steps_stopUnlessEnded
  | close => exact steps_stopUnlessEnded

theorem steps_items (hm : ∀ asset, (make asset).1.OnlySubmits) (interval : ℕ) (items : List FeedItem) :
    Steps (items.forM (item make interval)) := by
  induction items with
  | nil => exact steps_pure _
  | cons i items ih => exact (steps_item hm interval i).bind fun _ => ih

theorem steps_play (hm : ∀ asset, (make asset).1.OnlySubmits) (interval : ℕ) (shutdownFirst : Bool)
    (items : List FeedItem) : Steps (play make interval shutdownFirst items) := by
  have hfeed : Steps (feed make interval items) := (steps_items hm interval items).bind fun _ => steps_stopUnlessEnded
  unfold play
  cases shutdownFirst with
  | true => exact steps_finish.bind fun _ => hfeed
  | false => exact hfeed

end Run

namespace Trader

variable {ν σ : Type} {c : TraderConfig} {make : Maker ν σ} {t t' : Trader ν σ}

/-- What a run on a feed comes to is a state that is reached by steps. -/
theorem reached_of_run {shutdownFirst : Bool} {items : List FeedItem} {ended : Option RunEnd}
    (hm : ∀ asset, (make asset).1.OnlySubmits) (ht : Reached c t)
    (h : run c make shutdownFirst items t = (.ok ended, t')) : Reached c t' := by
  obtain ⟨visiting, t₀, hnew, hsteps⟩ := ht
  unfold run at h
  split at h
  · rename_i r hr
    cases h
    exact ⟨visiting, t₀, hnew, hsteps.trans (Run.steps_play hm _ _ _ _ _ _ hr)⟩
  · cases h

/-- In every state that a trader reaches its account keeps to its bounds, whatever the feed brings, however long orders
take and whichever orders its strategies send. Whatever a run on a feed comes to is such a state. -/
theorem inBounds_of_reached {c : TraderConfig} :
    (∀ t : Trader ν σ, Reached c t → t.session.broker.InBounds c.broker.startingCash) ∧
    ∀ (make : Maker ν σ) shutdownFirst items t ended t', (∀ asset, (make asset).1.OnlySubmits) → Reached c t →
      run c make shutdownFirst items t = (.ok ended, t') → Reached c t' := by
  refine ⟨?_, fun make shutdownFirst items t ended t' hm ht h => reached_of_run hm ht h⟩
  rintro t ⟨visiting, t₀, hnew, hsteps⟩
  exact (wellValued_of_steps (wellValued_of_new hnew) hsteps).session.broker.inBounds

/-- Orders of five dollars for YES, whenever the book of the asset changes. -/
def nibblers : Maker Unit Unit := fun _ =>
  (⟨⟨"nibbler", "1.0.0", "buys a little at a time"⟩, fun _ view =>
    .submit ⟨view.asset, .buyYes, .lit 60 2, .lit 5 0⟩ (.live view.asset) false fun _ => .done (.ok (), ())⟩, ())

/-- Two assets in turn. Of the second the asks are gone before the order is decided. -/
def twoAssets : List FeedItem :=
  [.event ⟨"rain", [⟨"0.40", "100"⟩], [⟨"0.50", "100"⟩], true⟩, .event ⟨"snow", [], [⟨"0.30", "20"⟩], true⟩,
    .event ⟨"snow", [⟨"0.10", "7"⟩], [⟨"0.30", "0"⟩, ⟨"2", "1"⟩], false⟩, .sleep 50,
    .event ⟨"rain", [⟨"0.90", "100"⟩], [], false⟩, .close]

theorem inBounds_of_twoAssets : ∃ t : Trader Unit Unit, Reached .patient t ∧
    t.session.broker.trades.map Trade.kind = [.buy, .rejectBuy] ∧
      t.session.broker.InBounds TraderConfig.patient.broker.startingCash := by
  let start : Trader Unit Unit := ⟨.new (.new TraderConfig.patient.broker .oldestFirst) 50, .empty, [], [], 0, [], []⟩
  have hstart : Reached .patient start := ⟨.oldestFirst, start, rfl, .refl⟩
  have hm : ∀ asset, (nibblers asset).1.OnlySubmits := fun asset state view => ⟨⟨_, rfl⟩, fun _ => trivial⟩
  cases h : run .patient nibblers false twoAssets start with
  | mk ended t =>
    have hrun : (run .patient nibblers false twoAssets start).1.isOk = true ∧
        (run .patient nibblers false twoAssets start).2.session.broker.trades.map Trade.kind = [.buy, .rejectBuy] := by
      decide +kernel
    rw [h] at hrun
    obtain ⟨hok, hkinds⟩ := hrun
    cases ended with
    | error f => cases hok
    | ok ended =>
      have ht : Reached .patient t := inBounds_of_reached.2 nibblers false twoAssets start ended t hm hstart h
      exact ⟨t, ht, hkinds, inBounds_of_reached.1 t ht⟩

end Trader
end OutcomeMarket

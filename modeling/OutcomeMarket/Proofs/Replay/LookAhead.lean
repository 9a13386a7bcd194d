import OutcomeMarket.Proofs.Replay.Candles
import OutcomeMarket.Proofs.Replay.History

/-! No look-ahead. A replay is watched tick by tick: what the strategy was shown, and all that the replay had come
to after the tick. What is seen up to a tick depends on the ticks up to it, and the end of the replay adds to it
without changing it, although the whole stream is validated first and settled last. -/
namespace OutcomeMarket

namespace CandleAggregator

variable {a a' : CandleAggregator} {t : Tick} {past : List Tick} {closed : Option Candle}

/-- The candle in the making tells the last of the ticks so far. -/
def Holds (a : CandleAggregator) (past : List Tick) : Prop :=
  ∀ c, a.current = some c → ∃ stretch, stretch <:+ past ∧ c.Summarises stretch

theorem holds_new (timeframe : Duration) (past : List Tick) : (new timeframe).Holds past := by
  intro c h
  cases h

/-- A candle that a tick closes is about earlier ticks, and the tick is in the candle in the making. -/
theorem Holds.push (h : a.Holds past) (hp : a.push t = .ok (closed, a')) :
    a'.Holds (past ++ [t]) ∧ ∀ c, closed = some c → ∃ stretch, stretch <:+ past ∧ c.Summarises stretch := by
  have hnew : ∀ d, Holds ⟨d, some (.openAt t)⟩ (past ++ [t]) := by
    rintro d c ⟨⟩
    exact ⟨[t], List.suffix_append past [t], Candle.summarises_openAt t⟩
  obtain ⟨timeframe, _ | c⟩ := a
  · cases hp
    exact ⟨hnew timeframe, fun _ h => by cases h⟩
  · obtain ⟨close, -, ⟨-, c', ha, rfl, rfl⟩ | ⟨-, rfl, rfl⟩⟩ := push_eq_ok_iff.1 hp
    · refine ⟨?_, fun _ h => by cases h⟩
      rintro _ ⟨⟩
      obtain ⟨stretch, hs, hc⟩ := h c rfl
      obtain ⟨front, rfl⟩ := hs
      exact ⟨stretch ++ [t], ⟨front, by rw [List.append_assoc]⟩, hc.absorb ha⟩
    · refine ⟨hnew timeframe, ?_⟩
      rintro _ ⟨⟩
      exact h c rfl

end CandleAggregator

/-- One tick of a replay as it can be watched: what the strategy was shown, if anything, and the replay after the
tick, with the account and the state of the strategy in it. -/
structure Observation (ν σ : Type) where
  shown : Option (Tick ⊕ Candle)
  replay : Replay ν σ

namespace Replay

variable {ν σ ω α : Type}

/-- What there is to show after a tick: the tick itself, or the candle that it closed. -/
def offer (t : Tick) : ReplayStrategy ν σ → ReplayM ν σ (Option (Tick ⊕ Candle))
  | .ticks _ => return some (.inl t)
  | .candles _ _ => Option.map .inr <$> aggregate t

/-- Hand to the strategy what it takes. -/
def hand : ReplayStrategy ν σ → Option (Tick ⊕ Candle) → ReplayM ν σ Unit
  | .ticks s, some (.inl t) => present s t
  | .candles _ s, some (.inr c) => present s c
  | _, _ => return ()

/-- One tick, and the answer what was shown. -/
def watch (s : ReplayStrategy ν σ) (t : Tick) : ReplayM ν σ (Option (Tick ⊕ Candle)) := do
  onBroker (Broker.setClock t.time)
  onBroker (Broker.setPrice t.asset t.price)
  let shown ← offer t s
  hand s shown
  mark t.time
  return shown

/-- A replay as it is watched from a state on, up to the tick that halts it. -/
def watchAll (s : ReplayStrategy ν σ) : Replay ν σ → List Tick → List (Observation ν σ)
  | _, [] => []
  | r, t :: ts =>
    match watch s t r with
    | .ok shown r' => ⟨shown, r'⟩ :: watchAll s r' ts
    | .error _ _ => []

theorem dispatch_eq_offer_hand (t : Tick) (s : ReplayStrategy ν σ) : dispatch t s = offer t s >>= hand s := by
  cases s with
  | ticks s => rfl
  | candles _ s =>
    funext r
    change (aggregate t >>= _) r = ((Option.map Sum.inr <$> aggregate t) >>= _) r
    simp only [bind, EStateM.bind, Functor.map, EStateM.map]
    cases aggregate t r with
    | ok closed r' => cases closed <;> rfl
    | error h r' => rfl

/-- Watching a tick is the tick. -/
theorem step_eq_watch (s : ReplayStrategy ν σ) (t : Tick) : step s t = watch s t >>= fun _ => pure () := by
  unfold step watch
  rw [dispatch_eq_offer_hand]
  simp only [bind_assoc, pure_bind, bind_pure_unit]

variable {s : ReplayStrategy ν σ} {r r' : Replay ν σ} {t : Tick} {ts past : List Tick}
  {shown : Option (Tick ⊕ Candle)}

theorem watchAll_cons (h : watch s t r = .ok shown r') :
    watchAll s r (t :: ts) = ⟨shown, r'⟩ :: watchAll s r' ts := by
  rw [watchAll, h]

theorem watchAll_cons_of_error {h : Halt} (hw : watch s t r = .error h r') : watchAll s r (t :: ts) = [] := by
  rw [watchAll, hw]

/-- What is seen of the first ticks does not depend on the ticks after them. -/
theorem take_watchAll (s : ReplayStrategy ν σ) (r : Replay ν σ) (ts : List Tick) (k : ℕ) :
    (watchAll s r ts).take k = watchAll s r (ts.take k) := by
  induction ts generalizing r k with
  | nil => rw [List.take_nil]; exact List.take_nil
  | cons t ts ih =>
    cases k with
    | zero => rfl
    | succ k =>
      rw [List.take_succ_cons]
      cases hw : watch s t r with
      | ok shown r' => rw [watchAll_cons hw, watchAll_cons hw, List.take_succ_cons, ih]
      | error h r' => rw [watchAll_cons_of_error hw, watchAll_cons_of_error hw, List.take_nil]

/-- Two moments of a replay between which no tick came in and no equity was marked. -/
structure SameFeed (r r' : Replay ν σ) : Prop where
  aggregator : r'.aggregator = r.aggregator
  curve : r'.curve = r.curve

theorem SameFeed.trans {u : Replay ν σ} (h : SameFeed r u) (h' : SameFeed u r') : SameFeed r r' :=
  ⟨h'.aggregator.trans h.aggregator, h'.curve.trans h.curve⟩

theorem sameFeed_of_onWorkspace {x : WorkM ν α} {a : α} (h : onWorkspace x r = .ok a r') : SameFeed r r' := by
  unfold onWorkspace at h
  cases hx : x r.workspace with
  | ok b w =>
    rw [hx] at h
    cases h
    exact ⟨rfl, rfl⟩
  | error f w =>
    rw [hx] at h
    cases h

theorem sameFeed_of_present {st : Strategy ν ω σ} {x : ω} {u : Unit} (h : present st x r = .ok u r') :
    SameFeed r r' := by
  unfold present at h
  rw [run_get_bind] at h
  obtain ⟨⟨answer, state⟩, v, hx, h⟩ := run_bind_eq_ok_iff.1 h
  obtain ⟨-, rfl⟩ := run_lift_eq_ok_iff.1 h
  exact (sameFeed_of_onWorkspace hx).trans ⟨rfl, rfl⟩

theorem sameFeed_of_hand {u : Unit} (h : hand s shown r = .ok u r') : SameFeed r r' := by
  unfold hand at h
  split at h
  · exact sameFeed_of_present h
  · exact sameFeed_of_present h
  · obtain ⟨-, rfl⟩ := run_pure_eq_ok_iff.1 h
    exact ⟨rfl, rfl⟩

theorem mark_eq_ok {time : Instant} {u : Unit} (h : mark time r = .ok u r') :
    r'.aggregator = r.aggregator ∧ ∃ equity, r'.curve = r.curve ++ [(time, equity)] := by
  obtain ⟨equity, v, hx, h⟩ := run_bind_eq_ok_iff.1 h
  have hv := sameFeed_of_onWorkspace hx
  cases h
  exact ⟨hv.aggregator, equity, congrArg (· ++ [(time, equity)]) hv.curve⟩

theorem aggregate_eq_ok {closed : Option Candle} (h : aggregate t r = .ok closed r') :
    (r.aggregator = none ∧ closed = none ∧ r = r') ∨ ∃ a a', r.aggregator = some a ∧ a.push t = .ok (closed, a') ∧
      { r with aggregator := some a' } = r' := by
  unfold aggregate at h
  rw [run_get_bind] at h
  cases hr : r.aggregator with
  | none =>
    rw [hr] at h
    obtain ⟨rfl, rfl⟩ := run_pure_eq_ok_iff.1 h
    exact .inl ⟨rfl, rfl, rfl⟩
  | some a =>
    rw [hr] at h
    obtain ⟨⟨closed, a'⟩, v, hp, h⟩ := run_bind_eq_ok_iff.1 h
    obtain ⟨hpush, rfl⟩ := run_faultable_eq_ok_iff.1 hp
    obtain ⟨rfl, rfl⟩ := run_pure_eq_ok_iff.1 h
    exact .inr ⟨a, a', rfl, hpush, rfl⟩

theorem curve_of_offer (h : offer t s r = .ok shown r') : r'.curve = r.curve := by
  cases s with
  | ticks st =>
    obtain ⟨-, rfl⟩ := run_pure_eq_ok_iff.1 h
    rfl
  | candles _ st =>
    obtain ⟨closed, ha, -⟩ := run_map_eq_ok_iff.1 h
    obtain ⟨-, -, rfl⟩ | ⟨a, a', -, -, rfl⟩ := aggregate_eq_ok ha <;> rfl

/-- The tick comes in by what it offers, and is marked in the end. -/
theorem watch_eq_ok (h : watch s t r = .ok shown r') : ∃ u v w, SameFeed r u ∧ offer t s u = .ok shown v ∧
    SameFeed v w ∧ mark t.time w = .ok () r' := by
  obtain ⟨_, u₁, hclock, h⟩ := run_bind_eq_ok_iff.1 h
  obtain ⟨_, u₂, hprice, h⟩ := run_bind_eq_ok_iff.1 h
  obtain ⟨shown, v, ho, h⟩ := run_bind_eq_ok_iff.1 h
  obtain ⟨_, w, hh, h⟩ := run_bind_eq_ok_iff.1 h
  obtain ⟨_, x, hm, h⟩ := run_bind_eq_ok_iff.1 h
  obtain ⟨rfl, rfl⟩ := run_pure_eq_ok_iff.1 h
  have hu := (sameFeed_of_onWorkspace hclock).trans (sameFeed_of_onWorkspace hprice)
  exact ⟨u₂, v, w, hu, ho, sameFeed_of_hand hh, hm⟩

theorem curve_of_watch (h : watch s t r = .ok shown r') : ∃ equity, r'.curve = r.curve ++ [(t.time, equity)] := by
  obtain ⟨u, v, w, hu, ho, hw, hm⟩ := watch_eq_ok h
  obtain ⟨-, equity, hc⟩ := mark_eq_ok hm
  exact ⟨equity, by rw [hc, hw.curve, curve_of_offer ho, hu.curve]⟩

end Replay

namespace Observation

variable {ν σ : Type}

/-- What is seen at one of the ticks looks back: the curve ends at that tick, and the strategy was shown the tick,
or a candle that tells ticks before it, or nothing. -/
structure LooksBack (ticks : List Tick) (i : ℕ) (o : Observation ν σ) : Prop where
  times : o.replay.curve.map Prod.fst = (ticks.take (i + 1)).map Tick.time
  tick : ∀ t, o.shown = some (.inl t) → ticks[i]? = some t
  candle : ∀ c, o.shown = some (.inr c) → ∃ stretch, stretch <:+ ticks.take i ∧ c.Summarises stretch

end Observation

namespace Replay

variable {ν σ : Type} {s : ReplayStrategy ν σ} {r r' : Replay ν σ} {t : Tick} {ts past : List Tick}
  {shown : Option (Tick ⊕ Candle)}

/-- The replay has come to the end of these ticks: equity was marked at each of them, and the candle in the making,
which only a strategy on candles has, tells the last of them. -/
structure Follows (s : ReplayStrategy ν σ) (past : List Tick) (r : Replay ν σ) : Prop where
  times : r.curve.map Prod.fst = past.map Tick.time
  holds : ∀ a, r.aggregator = some a → a.Holds past
  idle : ∀ st, s = .ticks st → r.aggregator = none

/-- What there is to show after a tick is that tick, or a candle that earlier ticks have filled. -/
theorem Follows.offered (h : r.Follows s past) (ho : offer t s r = .ok shown r') :
    (∀ a, r'.aggregator = some a → a.Holds (past ++ [t])) ∧ (∀ st, s = .ticks st → r'.aggregator = none) ∧
    (∀ u, shown = some (.inl u) → t = u) ∧
    ∀ c, shown = some (.inr c) → ∃ stretch, stretch <:+ past ∧ c.Summarises stretch := by
  cases s with
  | ticks st =>
    obtain ⟨rfl, rfl⟩ := run_pure_eq_ok_iff.1 ho
    have hn := h.idle st rfl
    refine ⟨fun a ha => ?_, fun _ _ => hn, fun u hu => ?_, fun c hc => ?_⟩
    · rw [hn] at ha
      cases ha
    · cases hu
      rfl
    · cases hc
  | candles _ st =>
    obtain ⟨closed, ha, rfl⟩ := run_map_eq_ok_iff.1 ho
    refine ⟨fun a hr => ?_, fun _ hs => ?_, fun u hu => ?_, fun c hc => ?_⟩
    · obtain ⟨hn, -, rfl⟩ | ⟨a₀, a', hr₀, hp, rfl⟩ := aggregate_eq_ok ha
      · rw [hn] at hr
        cases hr
      · cases hr
        exact ((h.holds a₀ hr₀).push hp).1
    · cases hs
    · cases closed <;> cases hu
    · obtain ⟨-, rfl, -⟩ | ⟨a₀, a', hr₀, hp, rfl⟩ := aggregate_eq_ok ha
      · cases hc
      · obtain ⟨c', rfl, hc⟩ := Option.map_eq_some_iff.1 hc
        cases hc
        exact ((h.holds a₀ hr₀).push hp).2 c rfl

/-- One more tick is followed, and nothing after it was shown. -/
theorem Follows.watched (h : r.Follows s past) (hw : watch s t r = .ok shown r') : r'.Follows s (past ++ [t]) ∧
    (∀ u, shown = some (.inl u) → t = u) ∧
    ∀ c, shown = some (.inr c) → ∃ stretch, stretch <:+ past ∧ c.Summarises stretch := by
  obtain ⟨equity, hcurve⟩ := curve_of_watch hw
  obtain ⟨u, v, w, hu, ho, hv, hm⟩ := watch_eq_ok hw
  have hfollows : u.Follows s past := ⟨hu.curve ▸ h.times, hu.aggregator ▸ h.holds, hu.aggregator ▸ h.idle⟩
  obtain ⟨hnew, hidle, hshown⟩ := hfollows.offered ho
  have hagg : r'.aggregator = v.aggregator := (mark_eq_ok hm).1.trans hv.aggregator
  refine ⟨⟨?_, hagg ▸ hnew, hagg ▸ hidle⟩, hshown⟩
  rw [hcurve, List.map_append, List.map_append, h.times]
  rfl

/-- Along a run each observation looks back, over the ticks before the run and those of the run. -/
theorem Follows.looksBack (h : r.Follows s past) {i : ℕ} {o : Observation ν σ}
    (ho : (watchAll s r ts)[i]? = some o) : o.LooksBack (past ++ ts) (past.length + i) := by
  induction ts generalizing r past i with
  | nil => cases ho
  | cons t ts ih =>
    cases hw : watch s t r with
    | error c r' =>
      rw [watchAll_cons_of_error hw] at ho
      cases ho
    | ok shown r' =>
      obtain ⟨hr, htick, hcandle⟩ := h.watched hw
      have hts : past ++ t :: ts = past ++ [t] ++ ts := by rw [List.append_assoc]; rfl
      rw [watchAll_cons hw] at ho
      cases i with
      | zero =>
        cases ho
        have hpast : (past ++ t :: ts).take past.length = past := List.take_left
        have hnow : (past ++ t :: ts).take (past.length + 1) = past ++ [t] := by
          rw [hts]
          exact List.take_left' (by rw [List.length_append]; rfl)
        refine ⟨hnow ▸ hr.times, fun u hu => ?_, fun c hc => ?_⟩
        · rw [← htick u hu, Nat.add_zero, List.getElem?_append_right (Nat.le_refl _), Nat.sub_self]
          rfl
        · rw [Nat.add_zero, hpast]
          exact hcandle c hc
      | succ i =>
        have hi := ih hr ho
        rw [List.length_append, List.length_singleton, Nat.add_assoc, Nat.add_comm 1 i] at hi
        rw [hts]
        exact hi

/-- A later moment of the same replay: the history and the curve have grown. -/
structure Extends (r r' : Replay ν σ) : Prop where
  trades : r.trades <+: r'.trades
  curve : r.curve <+: r'.curve

theorem Extends.refl (r : Replay ν σ) : Extends r r := ⟨List.prefix_refl _, List.prefix_refl _⟩

theorem Extends.trans {u : Replay ν σ} (h : Extends r u) (h' : Extends u r') : Extends r r' :=
  ⟨h.trades.trans h'.trades, h.curve.trans h'.curve⟩

theorem extends_of_watch (h : watch s t r = .ok shown r') : Extends r r' := by
  obtain ⟨equity, hc⟩ := curve_of_watch h
  have hstep : step s t r = .ok () r' := by
    rw [step_eq_watch]
    exact run_bind_eq_ok_iff.2 ⟨shown, r', h, rfl⟩
  exact ⟨(grows_step s t).of_ok hstep, hc ▸ List.prefix_append _ _⟩

/-- A run over all ticks is seen tick by tick, and goes on from each of its moments. -/
theorem extends_of_forM {u : Unit} (h : ts.forM (step s) r = .ok u r') : Extends r r' ∧
    (watchAll s r ts).length = ts.length ∧ ∀ o ∈ watchAll s r ts, Extends o.replay r' := by
  induction ts generalizing r with
  | nil =>
    obtain ⟨-, rfl⟩ := run_pure_eq_ok_iff.1 h
    exact ⟨.refl r, rfl, fun o ho => absurd ho List.not_mem_nil⟩
  | cons t ts ih =>
    obtain ⟨_, v, hstep, h⟩ := run_bind_eq_ok_iff.1 h
    rw [step_eq_watch] at hstep
    obtain ⟨shown, w, hw, hv⟩ := run_bind_eq_ok_iff.1 hstep
    obtain ⟨-, rfl⟩ := run_pure_eq_ok_iff.1 hv
    obtain ⟨hv, hlen, hall⟩ := ih h
    rw [watchAll_cons hw]
    refine ⟨(extends_of_watch hw).trans hv, congrArg (· + 1) hlen, fun o ho => ?_⟩
    obtain rfl | ho := List.mem_cons.1 ho
    · exact hv
    · exact hall o ho

theorem sameFeed_of_settle {c : BacktestConfig} {asset : String} {price : Decimal} {u : Unit}
    (h : settle c asset price r = .ok u r') : SameFeed r r' := by
  unfold settle at h
  cases hp : c.resolutionPrice with
  | some outcome =>
    rw [hp] at h
    obtain ⟨_, hx, -⟩ := run_map_eq_ok_iff.1 h
    exact sameFeed_of_onWorkspace hx
  | none =>
    rw [hp] at h
    by_cases hl : c.liquidateAtEnd = true
    · rw [if_pos hl] at h
      obtain ⟨_, hx, -⟩ := run_map_eq_ok_iff.1 h
      exact sameFeed_of_onWorkspace hx
    · rw [if_neg hl] at h
      obtain ⟨-, rfl⟩ := run_pure_eq_ok_iff.1 h
      exact ⟨rfl, rfl⟩

theorem curve_of_flush {u : Unit} (h : flush s r = .ok u r') : r'.curve = r.curve := by
  cases s with
  | ticks st =>
    obtain ⟨-, rfl⟩ := run_pure_eq_ok_iff.1 h
    rfl
  | candles _ st =>
    obtain ⟨w, state, _ | ⟨timeframe, _ | c⟩, curve⟩ := r
    · obtain ⟨-, rfl⟩ := run_pure_eq_ok_iff.1 h
      rfl
    · cases h
      rfl
    · exact (sameFeed_of_present h).curve

theorem result_eq_ok {asset strategy : String} {b : Broker} {curve : List (Instant × Decimal)} {x : BacktestResult}
    (h : result asset strategy b curve = .ok x) : x.ledger = b.trades ∧ x.equityCurve = curve := by
  obtain ⟨snapshot, -, h⟩ := bind_eq_ok_iff.1 h
  obtain ⟨totalReturn, -, h⟩ := bind_eq_ok_iff.1 h
  obtain ⟨percent, -, h⟩ := bind_eq_ok_iff.1 h
  obtain ⟨rate, -, h⟩ := bind_eq_ok_iff.1 h
  cases h
  exact ⟨rfl, rfl⟩

/-- The end of a replay adds to its history and its curve. -/
theorem runTicks_eq_ok {c : BacktestConfig} {first : Tick} {rest : List Tick} {x : BacktestResult}
    (h : runTicks c s first rest r = .ok x r') : ∃ u v, (first :: rest).forM (step s) r = .ok () u ∧ Extends u v ∧
      x.ledger = v.trades ∧ x.equityCurve = v.curve := by
  obtain ⟨_, u, hticks, h⟩ := run_bind_eq_ok_iff.1 h
  obtain ⟨_, u₁, hflush, h⟩ := run_bind_eq_ok_iff.1 h
  obtain ⟨_, u₂, hsettle, h⟩ := run_bind_eq_ok_iff.1 h
  obtain ⟨_, v, hmark, h⟩ := run_bind_eq_ok_iff.1 h
  rw [run_get_bind] at h
  obtain ⟨hx, rfl⟩ := run_faultable_eq_ok_iff.1 h
  have h₁ : Extends u u₁ := ⟨(grows_flush s).of_ok hflush, curve_of_flush hflush ▸ List.prefix_refl _⟩
  have h₂ : Extends u₁ u₂ :=
    ⟨(grows_settle c _ _).of_ok hsettle, (sameFeed_of_settle hsettle).curve ▸ List.prefix_refl _⟩
  have h₃ : Extends u₂ v := by
    obtain ⟨-, equity, hc⟩ := mark_eq_ok hmark
    exact ⟨(grows_mark _).of_ok hmark, hc ▸ List.prefix_append _ _⟩
  exact ⟨u, v, hticks, (h₁.trans h₂).trans h₃, result_eq_ok hx⟩

end Replay

section Market

variable {ν σ : Type} {c : BacktestConfig} {visiting : Visiting} {s : ReplayStrategy ν σ} {state : σ}
  {ticks ticks' : List Tick} {journal : List ν}

/-- The replay of one market as it is watched. Of ticks that cannot be replayed nothing is seen. -/
def watchMarket (c : BacktestConfig) (visiting : Visiting) (s : ReplayStrategy ν σ) (state : σ) (ticks : List Tick)
    (journal : List ν) : List (Observation ν σ) :=
  match (do Tick.validateStream ticks; s.aggregator : Except StrategyError (Option CandleAggregator)) with
  | .error _ => []
  | .ok aggregator => Replay.watchAll s (Replay.start c visiting s state aggregator journal) ticks

/-- A replay starts without equity and without a candle. -/
theorem follows_start {aggregator : Option CandleAggregator} (h : s.aggregator = .ok aggregator) :
    (Replay.start c visiting s state aggregator journal).Follows s [] := by
  cases s with
  | ticks st =>
    cases h
    refine ⟨rfl, fun a ha => ?_, fun _ _ => rfl⟩
    cases ha
  | candles timeframe st =>
    rw [ReplayStrategy.aggregator] at h
    by_cases ht : timeframe ≤ .zero
    · rw [if_pos ht] at h
      cases h
    · rw [if_neg ht] at h
      cases h
      refine ⟨rfl, fun a ha => ?_, fun _ hs => ?_⟩
      · cases ha
        exact CandleAggregator.holds_new timeframe []
      · cases hs

theorem watchMarket_of_ok {aggregator : Option CandleAggregator} (hv : Tick.validateStream ticks = .ok ())
    (ha : s.aggregator = .ok aggregator) : watchMarket c visiting s state ticks journal =
      Replay.watchAll s (Replay.start c visiting s state aggregator journal) ticks := by
  unfold watchMarket
  rw [hv, ha]
  rfl

theorem watchMarket_of_error {e : StrategyError} (ha : s.aggregator = .error e) :
    watchMarket c visiting s state ticks journal = [] := by
  unfold watchMarket
  rw [ha]
  cases Tick.validateStream ticks <;> rfl

/-- What a completed replay tells of a moment it went through: the curve as far as it had come, and the history of
that moment and more. -/
structure Observation.StandsIn (o : Observation ν σ) (i : ℕ) (x : BacktestResult) : Prop where
  curve : x.equityCurve.take (i + 1) = o.replay.curve
  trades : o.replay.trades <+: x.ledger

theorem looksBack_of_watchMarket {i : ℕ} {o : Observation ν σ}
    (ho : (watchMarket c visiting s state ticks journal)[i]? = some o) : o.LooksBack ticks i := by
  unfold watchMarket at ho
  split at ho
  · cases ho
  · rename_i aggregator h
    obtain ⟨-, -, ha⟩ := bind_eq_ok_iff.1 h
    have hl := (follows_start ha).looksBack ho
    rwa [List.nil_append, List.length_nil, Nat.zero_add] at hl

theorem runMarket_eq_ok {x : BacktestResult} {js : List ν}
    (h : runMarket c visiting s state ticks journal = (.ok x, js)) :
    ∃ aggregator v, Tick.validateStream ticks = .ok () ∧ s.aggregator = .ok aggregator ∧
      (∃ u, ticks.forM (Replay.step s) (Replay.start c visiting s state aggregator journal) = .ok () u ∧ u.Extends v) ∧
      x.ledger = v.trades ∧ x.equityCurve = v.curve := by
  unfold runMarket at h
  split at h
  · cases h
  · rename_i first rest
    split at h
    · cases h
    · rename_i aggregator ha
      obtain ⟨u, hv, ha⟩ := bind_eq_ok_iff.1 ha
      split at h
      · rename_i y r hr
        cases h
        obtain ⟨u, v, hu, huv, hx⟩ := Replay.runTicks_eq_ok hr
        exact ⟨aggregator, v, hv, ha, ⟨u, hu, huv⟩, hx⟩
      · cases h

theorem standsIn_of_runMarket {x : BacktestResult} {js : List ν} {i : ℕ} {o : Observation ν σ}
    (h : runMarket c visiting s state ticks journal = (.ok x, js))
    (ho : (watchMarket c visiting s state ticks journal)[i]? = some o) : o.StandsIn i x := by
  have hl := looksBack_of_watchMarket ho
  obtain ⟨aggregator, v, hv, ha, ⟨u, hu, huv⟩, hledger, hcurve⟩ := runMarket_eq_ok h
  rw [watchMarket_of_ok hv ha] at ho
  obtain ⟨-, hlen, hall⟩ := Replay.extends_of_forM hu
  have he := (hall o (List.mem_of_getElem? ho)).trans huv
  have hi : i < ticks.length := by
    rw [← hlen]
    exact (List.getElem?_eq_some_iff.1 ho).1
  have hlast : o.replay.curve.length = i + 1 := by
    rw [← List.length_map Prod.fst, hl.times, List.length_map, List.length_take]
    omega
  refine ⟨?_, hledger ▸ he.trades⟩
  rw [hcurve, ← hlast]
  exact (List.prefix_iff_eq_take.1 he.curve).symm

/-- No look-ahead. If two streams of ticks can be replayed and agree up to a tick, then up to that tick the replays
cannot be told apart: the strategy is shown the same, and all that the replays have come to is the same. Whatever the
stream, the strategy is shown a tick at that tick, and a candle only about earlier ticks; a replay that completes
went through all its ticks, and its result begins with the curve and the history of each of these moments. -/
theorem watchMarket_agrees {k : ℕ} (c : BacktestConfig) (visiting : Visiting) (s : ReplayStrategy ν σ) (state : σ)
    (journal : List ν) (hv : Tick.validateStream ticks = .ok ()) (hv' : Tick.validateStream ticks' = .ok ())
    (h : ticks.take k = ticks'.take k) :
    (watchMarket c visiting s state ticks journal).take k = (watchMarket c visiting s state ticks' journal).take k ∧
    (∀ stream i (o : Observation ν σ), (watchMarket c visiting s state stream journal)[i]? = some o →
      o.LooksBack stream i) ∧
    ∀ stream x js, runMarket c visiting s state stream journal = (.ok x, js) →
      (watchMarket c visiting s state stream journal).length = stream.length ∧
      ∀ i (o : Observation ν σ), (watchMarket c visiting s state stream journal)[i]? = some o → o.StandsIn i x := by
  refine ⟨?_, fun stream i o => looksBack_of_watchMarket, fun stream x js hr => ⟨?_, fun i o => ?_⟩⟩
  · cases ha : s.aggregator with
    | error e => rw [watchMarket_of_error ha, watchMarket_of_error ha]
    | ok aggregator =>
      rw [watchMarket_of_ok hv ha, watchMarket_of_ok hv' ha, Replay.take_watchAll, Replay.take_watchAll, h]
  · obtain ⟨aggregator, v, hv, ha, ⟨u, hu, -⟩, -⟩ := runMarket_eq_ok hr
    rw [watchMarket_of_ok hv ha]
    exact (Replay.extends_of_forM hu).2.1
  · exact standsIn_of_runMarket hr

end Market

/-- Ten dollars for YES shares of rain at the end of each minute with a tick. -/
def rainBuyer : ReplayStrategy Unit Unit :=
  .candles (.ofMillis 60000) ⟨⟨"rain_buyer", "1.0.0", "buys rain each minute"⟩, fun _ c =>
    .operate (.buy "rain" .yes c.closing (.lit 10 0) (.lit 1000 0)) fun _ => .done (.ok (), ())⟩

/-- Ticks at the seconds 0, 30 and 60, and a last one at this price. -/
def forkedTicks (price : Decimal) : List Tick :=
  [⟨"rain", .epoch, .lit 40 2, .lit 1 0⟩,
    ⟨"rain", .secondsIn 30, .lit 45 2, .lit 2 0⟩,
    ⟨"rain", .secondsIn 60, .lit 5 1, .lit 3 0⟩,
    ⟨"rain", .secondsIn 120, price, .lit 4 0⟩]

/-- A replay of them as it is watched, and how it ends. -/
def rainWatch (price : Decimal) : List (Observation Unit Unit) :=
  watchMarket .standard .oldestFirst rainBuyer () (forkedTicks price) []

def rainReplay (price : Decimal) : Journaled Unit BacktestResult :=
  runMarket .standard .oldestFirst rainBuyer () (forkedTicks price) []

/-- Two replays that part at the last tick have bought once by the third, on the first candle. Both complete, and all
that was seen of them stands in their results. -/
theorem watchMarket_of_forkedTicks :
    (rainWatch (.lit 9 1)).take 3 = (rainWatch (.lit 1 1)).take 3 ∧
    (∃ o, (rainWatch (.lit 9 1))[2]? = some o ∧ o.replay.trades.length = 1 ∧ o.shown.isSome = true ∧
      o.LooksBack (forkedTicks (.lit 9 1)) 2) ∧
    ∀ price ∈ [Decimal.lit 9 1, .lit 1 1], ∃ x js, rainReplay price = (.ok x, js) ∧ (rainWatch price).length = 4 ∧
      ∀ i (o : Observation Unit Unit), (rainWatch price)[i]? = some o → o.StandsIn i x := by
  have hv : Tick.validateStream (forkedTicks (.lit 9 1)) = .ok () := by decide +kernel
  have hv' : Tick.validateStream (forkedTicks (.lit 1 1)) = .ok () := by decide +kernel
  have hfork : (forkedTicks (.lit 9 1)).take 3 = (forkedTicks (.lit 1 1)).take 3 := rfl
  obtain ⟨hsame, hback, hends⟩ := watchMarket_agrees .standard .oldestFirst rainBuyer () ([] : List Unit) hv hv' hfork
  have hsome : ∃ o ∈ (rainWatch (.lit 9 1))[2]?, o.replay.trades.length = 1 ∧ o.shown.isSome = true := by
    decide +kernel
  obtain ⟨o, ho, hlen, hshown⟩ := hsome
  refine ⟨hsame, ⟨o, ho, hlen, hshown, hback _ 2 o ho⟩, fun price hp => ?_⟩
  have hcompletes : ∀ price ∈ [Decimal.lit 9 1, .lit 1 1], (rainReplay price).1.isOk = true := by decide +kernel
  have hok := hcompletes price hp
  cases hr : rainReplay price with
  | mk answer js =>
    rw [hr] at hok
    cases answer with
    | error e => cases hok
    | ok x => exact ⟨x, js, rfl, hends (forkedTicks price) x js hr⟩

end OutcomeMarket

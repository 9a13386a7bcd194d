import OutcomeMarket.Proofs.Replay.LookAhead
import OutcomeMarket.Proofs.Strategy.Custody

/-! A settled market tells its result in its own ledger. Ticks set the clock and strategies trade in between; the last
candle and the settlement come after the last tick and under its date, so that the records stay in the order of time.
Once both sides are closed the cash that the records add up to is all there is. -/
namespace OutcomeMarket

theorem Instant.le_refl (a : Instant) : a ≤ a := by
  rw [Instant.le_iff]
  omega

theorem Instant.le_trans {a b c : Instant} (h : a ≤ b) (h' : b ≤ c) : a ≤ c := by
  rw [Instant.le_iff] at *
  omega

/-- Ticks in order do not only follow each other: none precedes any before it. -/
theorem Tick.pairwise_of_checkOrder {asset : String} {ts : List Tick} (h : Tick.checkOrder asset ts = .ok ()) :
    ts.Pairwise fun t u => t.time ≤ u.time := by
  induction ts with
  | nil => exact .nil
  | cons t ts ih =>
    cases ts with
    | nil => exact List.pairwise_singleton _ t
    | cons u ts =>
      unfold Tick.checkOrder at h
      by_cases hlt : u.time < t.time
      · rw [if_pos hlt] at h
        cases h
      · rw [if_neg hlt] at h
        have hrest := ih h
        refine List.pairwise_cons.2 ⟨fun v hv => ?_, hrest⟩
        obtain rfl | hv := List.mem_cons.1 hv
        · exact hlt
        · exact Instant.le_trans hlt ((List.pairwise_cons.1 hrest).1 v hv)

theorem Tick.pairwise_of_validateStream {ts : List Tick} (h : Tick.validateStream ts = .ok ()) :
    ts.Pairwise fun t u => t.time ≤ u.time := by
  cases ts with
  | nil => exact .nil
  | cons t ts =>
    obtain ⟨_, -, h⟩ := bind_eq_ok_iff.1 h
    exact Tick.pairwise_of_checkOrder h

/-- A strategy that trades one asset only, by operations and by orders, and leaves the clock alone. -/
def ReplayStrategy.TradesOnly {ν σ : Type} (asset : String) (s : ReplayStrategy ν σ) : Prop :=
  s.Uses (Operation.On asset) fun o _ => o.asset = asset

/-- Whether a market is closed in the end. -/
def BacktestConfig.Settles (c : BacktestConfig) : Prop := c.resolutionPrice.isSome = true ∨ c.liquidateAtEnd = true

instance (c : BacktestConfig) : Decidable c.Settles := inferInstanceAs (Decidable (_ ∨ _))

namespace Broker

/-- Records in the order of time, each under one of these dates. -/
structure Dated (past : List Instant) (b : Broker) : Prop where
  sorted : (b.trades.map Trade.time).Pairwise (· ≤ ·)
  mem : ∀ t ∈ b.trades, t.time ∈ past

variable {b b' : Broker} {past : List Instant} {trades : String → Prop} {quotes : Decimal → Prop}

/-- What is done at the latest of the dates is dated in order. -/
theorem Dated.frame (h : Dated past b) (hpast : ∀ p ∈ past, p ≤ b.clock) (hclock : b.clock ∈ past)
    (hf : Frame trades quotes b b') : Dated past b' := by
  obtain ⟨ts, ht, hs⟩ := hf.dated
  refine ⟨?_, fun t hm => ?_⟩
  · rw [ht, List.map_append, List.pairwise_append]
    refine ⟨h.sorted, ?_, fun x hx y hy => ?_⟩
    · rw [List.pairwise_map]
      refine List.pairwise_of_forall_mem_list fun t hm t' hm' => ?_
      rw [hs t hm, hs t' hm']
      exact Instant.le_refl _
    · obtain ⟨t, hm, rfl⟩ := List.mem_map.1 hx
      obtain ⟨t', hm', rfl⟩ := List.mem_map.1 hy
      rw [hs t' hm']
      exact hpast _ (h.mem t hm)
  · rw [ht] at hm
    obtain hm | hm := List.mem_append.1 hm
    · exact h.mem t hm
    · rw [hs t hm]
      exact hclock

end Broker

namespace Replay

open Broker Session

variable {ν σ ω α : Type}

/-- The session of a replay and its account. -/
def session (r : Replay ν σ) : Session := r.workspace.session

def broker (r : Replay ν σ) : Broker := r.session.broker

/-- The end of a replay: the last candle, the settlement and the result. -/
def finish (c : BacktestConfig) (s : ReplayStrategy ν σ) (first last : Tick) : ReplayM ν σ BacktestResult := do
  flush s
  settle c first.asset last.price
  mark last.time
  let r ← get
  (result first.asset s.metadata.name r.broker r.curve : Faultable BacktestResult)

variable {s : ReplayStrategy ν σ} {r r' : Replay ν σ} {t first last : Tick} {ts past : List Tick} {asset : String}
  {c : BacktestConfig} {config : BrokerConfig} {x : BacktestResult}

theorem onBroker_eq_ok {y : BrokerM α} {a : α} (h : onBroker y r = .ok a r') :
    ∃ b, y r.broker = .ok a b ∧ r'.session = { r.session with broker := b } ∧ r'.curve = r.curve := by
  unfold onBroker onWorkspace at h
  cases hx : Workspace.onSession (Session.onBroker y) r.workspace with
  | error f w =>
    rw [hx] at h
    cases h
  | ok a' w =>
    rw [hx] at h
    cases h
    obtain ⟨u, hu, rfl⟩ := Workspace.onSession_eq_ok_iff.1 hx
    obtain ⟨b, hb, rfl⟩ := Session.onBroker_eq_ok_iff.1 hu
    exact ⟨b, hb, rfl, rfl⟩

/-- What the replay itself does to the account is one deed as well. -/
theorem works_of_onBroker {y : BrokerM α} {a : α} {op : Operation} {o : Option Decimal} (hop : op.On asset)
    (hy : ∀ b b', y b = .ok a b' → op.run b = .ok o b') (h : onBroker y r = .ok a r') :
    Works asset r.session r'.session ∧ r'.curve = r.curve := by
  obtain ⟨b, hb, hs, hcurve⟩ := onBroker_eq_ok h
  rw [hs]
  exact ⟨.single (.operated hop (Session.onBroker_eq_ok_iff.2 ⟨b, hy _ _ hb, rfl⟩)), hcurve⟩

theorem works_of_present {st : Strategy ν ω σ} {y : ω} {u : Unit}
    (hs : st.Uses (Operation.On asset) fun o _ => o.asset = asset) (h : present st y r = .ok u r') :
    Works asset r.session r'.session := by
  unfold present at h
  rw [run_get_bind] at h
  obtain ⟨⟨answer, state⟩, v, hx, h⟩ := run_bind_eq_ok_iff.1 h
  obtain ⟨-, rfl⟩ := run_lift_eq_ok_iff.1 h
  unfold onWorkspace at hx
  cases hrun : (st.react r.state y).run r.workspace with
  | error f w =>
    rw [hrun] at hx
    cases hx
  | ok a w =>
    rw [hrun] at hx
    cases hx
    exact (hs r.state y).deeds hrun

theorem works_of_dispatch {u : Unit} (hs : s.TradesOnly asset) (h : dispatch t s r = .ok u r') :
    Works asset r.session r'.session ∧ r'.curve = r.curve := by
  cases s with
  | ticks st => exact ⟨works_of_present hs h, (sameFeed_of_present h).curve⟩
  | candles _ st =>
    obtain ⟨closed, v, ha, h⟩ := run_bind_eq_ok_iff.1 h
    have hv : v.session = r.session ∧ v.curve = r.curve := by
      obtain ⟨-, -, rfl⟩ | ⟨a, a', -, -, rfl⟩ := aggregate_eq_ok ha <;> exact ⟨rfl, rfl⟩
    cases closed with
    | none =>
      obtain ⟨-, rfl⟩ := run_pure_eq_ok_iff.1 h
      rw [hv.1]
      exact ⟨.refl, hv.2⟩
    | some candle =>
      rw [← hv.1, ← hv.2]
      exact ⟨works_of_present hs h, (sameFeed_of_present h).curve⟩

theorem works_of_flush {u : Unit} (hs : s.TradesOnly asset) (h : flush s r = .ok u r') :
    Works asset r.session r'.session := by
  cases s with
  | ticks st =>
    obtain ⟨-, rfl⟩ := run_pure_eq_ok_iff.1 h
    exact .refl
  | candles _ st =>
    obtain ⟨w, state, _ | ⟨timeframe, _ | candle⟩, curve⟩ := r
    · obtain ⟨-, rfl⟩ := run_pure_eq_ok_iff.1 h
      exact .refl
    · cases h
      exact .refl
    · have hw := works_of_present hs h
      exact hw

/-- Equity is marked at the worth of the account, which goes onto the curve. -/
theorem works_of_mark (asset : String) {time : Instant} {u : Unit} (h : mark time r = .ok u r') :
    Works asset r.session r'.session ∧ r'.broker.ledger = r.broker.ledger ∧
      ∃ equity, r'.broker.value = .ok equity ∧ r'.curve = r.curve ++ [(time, equity)] := by
  obtain ⟨equity, v, hx, h⟩ := run_bind_eq_ok_iff.1 h
  obtain rfl := run_modify_eq_ok_iff.1 h
  have hop : Operation.markEquity.On asset := trivial
  obtain ⟨hw, hcurve⟩ := works_of_onBroker hop (fun b b' hm => run_map_eq_ok_iff.2 ⟨equity, hm, rfl⟩) hx
  obtain ⟨b, hm, hs, -⟩ := onBroker_eq_ok hx
  obtain ⟨-, -, hv⟩ := marked_of_markEquity hm
  have hb : b = v.broker := congrArg Session.broker hs.symm
  rw [hb] at hm hv
  exact ⟨hw, (sameBooks_of_markEquity hm).ledger, equity, hv, congrArg (· ++ [(time, equity)]) hcurve⟩

/-- A settled market is flat. -/
theorem works_of_settle {price : Decimal} {u : Unit} (hc : c.Settles) (h : settle c asset price r = .ok u r') :
    Works asset r.session r'.session ∧ r'.curve = r.curve ∧ (r.broker.Unshorted → r'.broker.Flat asset) := by
  unfold settle at h
  cases hp : c.resolutionPrice with
  | some outcome =>
    rw [hp] at h
    obtain ⟨n, hx, -⟩ := run_map_eq_ok_iff.1 h
    have hop : (Operation.resolve asset outcome).On asset := ⟨rfl, trivial⟩
    obtain ⟨hw, hcurve⟩ := works_of_onBroker hop (fun b b' hr => run_map_eq_ok_iff.2 ⟨n, hr, rfl⟩) hx
    obtain ⟨b, hr, hs, -⟩ := onBroker_eq_ok hx
    refine ⟨hw, hcurve, fun h0 => ?_⟩
    rw [broker, hs]
    exact flat_of_resolve h0 hr
  | none =>
    have hl : c.liquidateAtEnd = true := by
      unfold BacktestConfig.Settles at hc
      rw [hp] at hc
      simpa using hc
    rw [hp] at h
    dsimp only at h
    rw [if_pos hl] at h
    obtain ⟨n, hx, -⟩ := run_map_eq_ok_iff.1 h
    have hop : (Operation.liquidate asset price).On asset := ⟨rfl, trivial⟩
    obtain ⟨hw, hcurve⟩ := works_of_onBroker hop (fun b b' hr => run_map_eq_ok_iff.2 ⟨n, hr, rfl⟩) hx
    obtain ⟨b, hr, hs, -⟩ := onBroker_eq_ok hx
    refine ⟨hw, hcurve, fun h0 => ?_⟩
    rw [broker, hs]
    exact flat_of_liquidate h0 hr

/-- A replay that has come to the end of these ticks. -/
structure Progress (config : BrokerConfig) (asset : String) (past : List Tick) (r : Replay ν σ) : Prop where
  kept : r.session.Kept config asset
  dated : Dated (past.map Tick.time) r.broker
  clock : ∀ t, past.getLast? = some t → r.broker.clock = t.time
  times : r.curve.map Prod.fst = past.map Tick.time

/-- One more tick moves the clock, and all that is done at it is done under its date. -/
theorem Progress.step {u : Unit} (h : Progress config asset past r) (hs : s.TradesOnly asset)
    (hpast : ∀ p ∈ past, p.time ≤ t.time) (hstep : Replay.step s t r = .ok u r') :
    Progress config asset (past ++ [t]) r' := by
  unfold Replay.step at hstep
  obtain ⟨_, r₁, hclock, hstep⟩ := run_bind_eq_ok_iff.1 hstep
  obtain ⟨_, r₂, hprice, hstep⟩ := run_bind_eq_ok_iff.1 hstep
  obtain ⟨_, r₃, hd, hm⟩ := run_bind_eq_ok_iff.1 hstep
  obtain ⟨b, hc₁, hs₁, hcurve₁⟩ := onBroker_eq_ok hclock
  have hop : (Operation.setPrice t.asset t.price).On asset := trivial
  obtain ⟨hw₂, hcurve₂⟩ := works_of_onBroker hop (fun b b' hp => run_bind_eq_ok_iff.2 ⟨(), b', hp, rfl⟩) hprice
  obtain ⟨hw₃, hcurve₃⟩ := works_of_dispatch hs hd
  obtain ⟨hw₄, -, equity, -, hcurve₄⟩ := works_of_mark asset hm
  obtain rfl : { r.broker with clock := t.time } = b := run_modify_eq_ok_iff.1 hc₁
  have hw : Works asset { r.session with broker := { r.broker with clock := t.time } } r'.session :=
    hs₁ ▸ (hw₂.trans hw₃).trans hw₄
  obtain ⟨hkept, hframe⟩ := (h.kept.setClock t.time).works hw
  have hdates : (past ++ [t]).map Tick.time = past.map Tick.time ++ [t.time] := List.map_append
  refine ⟨hkept, ?_, fun t' ht' => ?_, ?_⟩
  · rw [hdates]
    have hbefore : Dated (past.map Tick.time ++ [t.time]) { r.broker with clock := t.time } :=
      ⟨h.dated.sorted, fun x hx => List.mem_append_left _ (h.dated.mem x hx)⟩
    refine hbefore.frame (fun p hp => ?_) (List.mem_append_right _ List.mem_cons_self) hframe
    obtain hp | hp := List.mem_append.1 hp
    · obtain ⟨q, hq, rfl⟩ := List.mem_map.1 hp
      exact hpast q hq
    · rw [List.mem_singleton.1 hp]
      exact Instant.le_refl _
  · rw [List.getLast?_concat] at ht'
    cases ht'
    exact hframe.clock
  · rw [hcurve₄, hcurve₃, hcurve₂, hcurve₁, List.map_append, h.times, hdates]
    rfl

theorem Progress.forM {u : Unit} (h : Progress config asset past r) (hs : s.TradesOnly asset)
    (hsorted : (past ++ ts).Pairwise fun t u => t.time ≤ u.time) (hf : ts.forM (Replay.step s) r = .ok u r') :
    Progress config asset (past ++ ts) r' := by
  induction ts generalizing r past with
  | nil =>
    obtain ⟨-, rfl⟩ := run_pure_eq_ok_iff.1 hf
    rwa [List.append_nil]
  | cons t ts ih =>
    obtain ⟨_, v, hstep, hf⟩ := run_bind_eq_ok_iff.1 hf
    have hcons : past ++ t :: ts = past ++ [t] ++ ts := by rw [List.append_assoc]; rfl
    have hpast : ∀ p ∈ past, p.time ≤ t.time := by
      intro p hp
      exact (List.pairwise_append.1 hsorted).2.2 p hp t List.mem_cons_self
    rw [hcons] at hsorted ⊢
    exact ih (h.step hs hpast hstep) hsorted hf

theorem progress_start {visiting : Visiting} {aggregator : Option CandleAggregator} {state : σ} {journal : List ν} :
    Progress c.broker asset [] (start c visiting s state aggregator journal) := by
  refine ⟨Session.kept_new c.broker visiting asset, ⟨.nil, fun t ht => ?_⟩, fun t ht => ?_, rfl⟩
  · exact absurd ht List.not_mem_nil
  · cases ht

end Replay

/-- A result that reports an account and a curve. -/
structure BacktestResult.Reports (x : BacktestResult) (asset : String) (b : Broker)
    (curve : List (Instant × Decimal)) : Prop where
  asset_eq : x.asset = asset
  startingCapital : x.startingCapital = b.config.startingCash
  finalCapital : b.value = .ok x.finalCapital
  wins : x.wins = b.wins
  losses : x.losses = b.losses
  actions : x.actions = b.actions
  ledger : x.ledger = b.trades
  equityCurve : x.equityCurve = curve

/-- A result that can be told from its own ledger, over these ticks. Each exit on record is a win or a loss; each win
or loss without a record is due to one of so many broken sales. -/
structure BacktestResult.AddsUp (x : BacktestResult) (starting : Decimal) (ticks : List Tick) (last : Tick)
    (broken : ℕ) : Prop where
  startingCapital : x.startingCapital = starting
  finalCapital : cashAfter x.startingCapital x.ledger = .ok x.finalCapital
  times : x.equityCurve.map Prod.fst = ticks.map Tick.time ++ [last.time]
  lastPoint : x.equityCurve.getLast? = some (last.time, x.finalCapital)
  sorted : (x.ledger.map Trade.time).Pairwise (· ≤ ·)
  dated : ∀ t ∈ x.ledger, ∃ tick ∈ ticks, t.time = tick.time
  actions : x.actions = x.ledger.countP (·.kind.isAction)
  exits : x.ledger.countP (·.kind.isExit) ≤ x.wins + x.losses
  lost : x.wins + x.losses ≤ x.ledger.countP (·.kind.isExit) + broken

/-- What is reported about a session that was kept, and holds nothing in the end, adds up. -/
theorem BacktestResult.Reports.addsUp {x : BacktestResult} {asset : String} {config : BrokerConfig} {s : Session}
    {curve : List (Instant × Decimal)} {ticks : List Tick} {last : Tick} (hx : x.Reports asset s.broker curve)
    (hk : s.Kept config asset) (hd : Broker.Dated (ticks.map Tick.time) s.broker)
    (hflat : ∀ other, s.broker.Flat other) (htimes : curve.map Prod.fst = ticks.map Tick.time ++ [last.time])
    (hlast : curve.getLast? = some (last.time, x.finalCapital)) :
    x.AddsUp config.startingCash ticks last s.brokenSales := by
  obtain ⟨lost, hle, hexits⟩ := hk.exits
  have hcash : s.broker.cash = x.finalCapital := by
    have hvalue := hx.finalCapital
    rw [Broker.value_of_flat hflat] at hvalue
    exact Except.ok.inj hvalue
  have hstart : x.startingCapital = config.startingCash := by rw [hx.startingCapital, hk.config_eq]
  refine ⟨hstart, ?_, hx.equityCurve ▸ htimes, hx.equityCurve ▸ hlast, hx.ledger ▸ hd.sorted, fun t ht => ?_, ?_, ?_,
    ?_⟩
  · rw [hstart, hx.ledger, ← hcash]
    exact hk.cash
  · rw [hx.ledger] at ht
    obtain ⟨tick, htick, he⟩ := List.mem_map.1 (hd.mem t ht)
    exact ⟨tick, htick, he.symm⟩
  · rw [hx.actions, hx.ledger]
    exact hk.actions
  · rw [hx.wins, hx.losses, hx.ledger, hexits]
    exact Nat.le_add_right _ _
  · rw [hx.wins, hx.losses, hx.ledger, hexits]
    exact Nat.add_le_add_left hle _

namespace Replay

open Broker Session

variable {ν σ : Type} {s : ReplayStrategy ν σ} {state : σ} {r r' u : Replay ν σ} {first last : Tick}
  {ticks rest : List Tick} {c : BacktestConfig} {visiting : Visiting} {x : BacktestResult} {journal js : List ν}

theorem reports_of_result {asset strategy : String} {b : Broker} {curve : List (Instant × Decimal)}
    (h : result asset strategy b curve = .ok x) : x.Reports asset b curve := by
  obtain ⟨snapshot, hs, h⟩ := bind_eq_ok_iff.1 h
  obtain ⟨value, hv, hs⟩ := bind_eq_ok_iff.1 (checked_eq_ok_iff.1 hs)
  obtain ⟨totalReturn, -, h⟩ := bind_eq_ok_iff.1 h
  obtain ⟨percent, -, h⟩ := bind_eq_ok_iff.1 h
  obtain ⟨rate, -, h⟩ := bind_eq_ok_iff.1 h
  cases h
  cases hs
  exact ⟨rfl, rfl, hv, rfl, rfl, rfl, rfl, rfl⟩

/-- After its last tick a replay is finished. -/
theorem runTicks_eq (c : BacktestConfig) (s : ReplayStrategy ν σ) (first : Tick) (rest : List Tick) :
    runTicks c s first rest =
      ((first :: rest).forM (step s) >>= fun _ => finish c s first (rest.getLastD first)) := rfl

/-- A market's replay in two parts: `u` after the last tick, `r` in the end. -/
structure Phases (c : BacktestConfig) (visiting : Visiting) (s : ReplayStrategy ν σ) (state : σ) (ticks : List Tick)
    (journal : List ν) (last : Tick) (u r : Replay ν σ) (x : BacktestResult) : Prop where
  last_eq : ticks.getLast? = some last
  ticked : ∃ aggregator, s.aggregator = .ok aggregator ∧
    ticks.forM (step s) (start c visiting s state aggregator journal) = .ok () u
  finished : ∃ first, ticks.head? = some first ∧ finish c s first last u = .ok x r

theorem phases_of_runMarket (h : runMarket c visiting s state ticks journal = (.ok x, js)) :
    Tick.validateStream ticks = .ok () ∧ ∃ last u r, Phases c visiting s state ticks journal last u r x := by
  unfold runMarket at h
  split at h
  · cases h
  · rename_i first rest
    split at h
    · cases h
    · rename_i aggregator ha
      obtain ⟨_, hv, ha⟩ := bind_eq_ok_iff.1 ha
      split at h
      · rename_i y r hr
        cases h
        rw [runTicks_eq] at hr
        obtain ⟨_, u, hu, hr⟩ := run_bind_eq_ok_iff.1 hr
        refine ⟨hv, rest.getLastD first, u, r, ?_, ⟨aggregator, ha, hu⟩, first, rfl, hr⟩
        rw [List.getLast?_cons, List.getLastD_eq_getLast?]
      · cases h

theorem finish_eq_ok (h : finish c s first last r = .ok x r') : ∃ r₁ r₂, flush s r = .ok () r₁ ∧
    settle c first.asset last.price r₁ = .ok () r₂ ∧ mark last.time r₂ = .ok () r' ∧
    x.Reports first.asset r'.broker r'.curve := by
  unfold finish at h
  obtain ⟨_, r₁, hflush, h⟩ := run_bind_eq_ok_iff.1 h
  obtain ⟨_, r₂, hsettle, h⟩ := run_bind_eq_ok_iff.1 h
  obtain ⟨_, r₃, hmark, h⟩ := run_bind_eq_ok_iff.1 h
  rw [run_get_bind] at h
  obtain ⟨hx, rfl⟩ := run_faultable_eq_ok_iff.1 h
  exact ⟨r₁, r₂, hflush, hsettle, hmark, reports_of_result hx⟩

/-- What the end of a replay does to the account, and the point that it adds to the curve. -/
theorem works_of_finish {config : BrokerConfig} (hk : r.session.Kept config first.asset) (hc : c.Settles)
    (hs : s.TradesOnly first.asset) (h : finish c s first last r = .ok x r') :
    Works first.asset r.session r'.session ∧ r'.broker.Flat first.asset ∧
      r'.curve = r.curve ++ [(last.time, x.finalCapital)] := by
  obtain ⟨r₁, r₂, hflush, hsettle, hmark, hx⟩ := finish_eq_ok h
  have hw₁ := works_of_flush hs hflush
  obtain ⟨hw₂, hcurve, hflat⟩ := works_of_settle hc hsettle
  obtain ⟨hw₃, hledger, equity, hv, hlast⟩ := works_of_mark first.asset hmark
  refine ⟨(hw₁.trans hw₂).trans hw₃, fun side => ?_, ?_⟩
  · have h₁ : r₁.broker.Unshorted := (hk.works hw₁).1.unshorted
    rw [position, hledger]
    exact hflat h₁ side
  · have hfinal := hx.finalCapital
    rw [hv] at hfinal
    rw [hlast, hcurve, curve_of_flush hflush, Except.ok.inj hfinal]

theorem time_le_last {ts : List Tick} (hsorted : ts.Pairwise fun t u => t.time ≤ u.time)
    (hl : ts.getLast? = some last) : ∀ t ∈ ts, t.time ≤ last.time := by
  obtain ⟨front, rfl⟩ := List.getLast?_eq_some_iff.1 hl
  intro t ht
  obtain ht | ht := List.mem_append.1 ht
  · exact (List.pairwise_append.1 hsorted).2.2 t ht last List.mem_cons_self
  · rw [List.mem_singleton.1 ht]
    exact Instant.le_refl _

/-- What is done after the last tick is dated by it. -/
theorem Progress.dated_of_frame {config : BrokerConfig} {asset : String} {past : List Tick} {trades : String → Prop}
    {quotes : Decimal → Prop} {b : Broker} (h : Progress config asset past r)
    (hsorted : past.Pairwise fun t u => t.time ≤ u.time) (hl : past.getLast? = some last)
    (hf : Frame trades quotes r.broker b) : Dated (past.map Tick.time) b := by
  have hclock := h.clock last hl
  refine h.dated.frame (fun p hm => ?_) ?_ hf
  · obtain ⟨t, ht, rfl⟩ := List.mem_map.1 hm
    rw [hclock]
    exact time_le_last hsorted hl t ht
  · rw [hclock]
    exact List.mem_map_of_mem (List.mem_of_getLast? hl)

/-- A settled market tells its result in its own ledger. Both sides are flat in the end; what the strategy and the
settlement do after the last tick is dated by it; and capital, counters, curve and dates agree with the records. Only a
delayed sale that faults while the strategy waits may be counted without a record; without latency there is none. -/
theorem addsUp_of_runMarket (hc : c.Settles) (hs : s.TradesOnly x.asset)
    (h : runMarket c visiting s state ticks journal = (.ok x, js)) :
    ∃ last u r, Phases c visiting s state ticks journal last u r x ∧ r.broker.Flat x.asset ∧
      x.AddsUp c.broker.startingCash ticks last r.session.brokenSales ∧
      (c.broker.latencyMillis = 0 → r.session.brokenSales = 0) ∧
      ∃ late, x.ledger = u.broker.trades ++ late ∧ ∀ t ∈ late, t.time = last.time := by
  obtain ⟨hv, last, u, r, hp⟩ := phases_of_runMarket h
  obtain ⟨first, hfirst, hfinish⟩ := hp.finished
  obtain ⟨aggregator, ha, hticks⟩ := hp.ticked
  obtain ⟨-, -, -, -, -, hx⟩ := finish_eq_ok hfinish
  have hsorted := Tick.pairwise_of_validateStream hv
  rw [hx.asset_eq] at hs ⊢
  have hu : Progress c.broker first.asset ([] ++ ticks) u := progress_start.forM hs hsorted hticks
  rw [List.nil_append] at hu
  obtain ⟨hw, hflat, hcurve⟩ := works_of_finish hu.kept hc hs hfinish
  obtain ⟨hkept, hframe⟩ := hu.kept.works hw
  have htimes : r.curve.map Prod.fst = ticks.map Tick.time ++ [last.time] := by
    rw [hcurve, List.map_append, hu.times]
    rfl
  have hlast : r.curve.getLast? = some (last.time, x.finalCapital) := by rw [hcurve, List.getLast?_concat]
  refine ⟨last, u, r, hp, hflat, ?_, hkept.brokenSales_eq_zero, ?_⟩
  · exact hx.addsUp hkept (hu.dated_of_frame hsorted hp.last_eq hframe) (hkept.flat hflat) htimes hlast
  · obtain ⟨late, hlate, hdate⟩ := hframe.dated
    rw [hx.ledger]
    exact ⟨late, hlate, fun t ht => (hdate t ht).trans (hu.clock last hp.last_eq)⟩

/-- The third tick closes the first candle and the fourth the second; the last one is flushed, and what has been
bought is sold. -/
theorem addsUp_of_rainBuyer : ∃ x js, rainReplay (.lit 9 1) = (.ok x, js) ∧
    x.ledger.map Trade.kind = [.buy, .buy, .buy, .sell] ∧
    ∃ last u r, Phases .standard .oldestFirst rainBuyer () (forkedTicks (.lit 9 1)) [] last u r x ∧
      r.broker.Flat x.asset ∧
      x.AddsUp BacktestConfig.standard.broker.startingCash (forkedTicks (.lit 9 1)) last r.session.brokenSales ∧
      (BacktestConfig.standard.broker.latencyMillis = 0 → r.session.brokenSales = 0) ∧
      ∃ late, x.ledger = u.broker.trades ++ late ∧ ∀ t ∈ late, t.time = last.time := by
  have hrun : ∃ x ∈ (rainReplay (.lit 9 1)).1.toOption,
      x.asset = "rain" ∧ x.ledger.map Trade.kind = [.buy, .buy, .buy, .sell] := by decide +kernel
  cases h : rainReplay (.lit 9 1) with
  | mk answer js =>
    rw [h] at hrun
    obtain ⟨x, hx, hasset, hkinds⟩ := hrun
    cases answer with
    | error e => cases hx
    | ok y =>
      cases hx
      have hs : rainBuyer.TradesOnly x.asset := by
        rw [hasset]
        intro state candle
        exact ⟨⟨rfl, trivial⟩, fun _ => trivial⟩
      exact ⟨x, js, rfl, hkinds, addsUp_of_runMarket (by decide) hs h⟩

/-- Buys YES of "rain" at a tick, sells it for more on a book of its own, and waits for the sale. -/
def waitingSeller : ReplayStrategy Unit Unit :=
  .ticks ⟨⟨"waiting_seller", "1.0.0", "sells what it has bought"⟩, fun _ _ =>
    .operate (.buy "rain" .yes (.lit 50 2) (.lit 100 0) (.lit 1000 0)) fun _ =>
      .submit ⟨"rain", .sellYes, .lit 50 2, .zero⟩ (.own ⟨"rain", [⟨.lit 90 2, .lit 1000 0⟩], []⟩) false fun _ =>
        .attend (.wait 0) none fun _ => .done (.ok (), ())⟩

/-- The account has no room for what the sale would bring. The market ends well even so, with a win although the
purchase is all there is on record. -/
theorem win_without_record_of_waitingSeller :
    let c : BacktestConfig := ⟨overfullConfig, true, none⟩
    let ticks : List Tick := [⟨"rain", .epoch, .lit 50 2, .lit 1 0⟩]
    c.validate = .ok () ∧ c.Settles ∧ Tick.validateStream ticks = .ok () ∧ waitingSeller.TradesOnly "rain" ∧
      ∃ x ∈ (runMarket c .oldestFirst waitingSeller () ticks []).1.toOption, x.asset = "rain" ∧
        x.ledger.map Trade.kind = [.buy] ∧ x.ledger.countP (·.kind.isExit) = 0 ∧ x.wins = 1 ∧ x.losses = 0 := by
  have htrades : waitingSeller.TradesOnly "rain" := by
    intro state tick
    exact ⟨⟨rfl, trivial⟩, fun _ => ⟨rfl, fun _ _ => trivial⟩⟩
  exact ⟨by decide +kernel, by decide, by decide +kernel, htrades, by decide +kernel⟩

end Replay
end OutcomeMarket

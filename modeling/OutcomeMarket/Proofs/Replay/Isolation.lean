import Mathlib.Data.List.Forall2
import OutcomeMarket.Proofs.Replay.Settlement
import OutcomeMarket.Proofs.Strategy.Indifference
import OutcomeMarket.Replay.Portfolio

/-! Markets of a portfolio do not see each other. All that one replay leaves to the next is the journal, and no replay
reads it, so that each market comes to what it comes to alone, on an account that visits its holdings in the same
order. That order matters to none that minds its own asset. The first market that fails ends the run with its error;
if none does, the run adds up what they came to. -/
namespace OutcomeMarket

/-- A strategy that trades one asset, and decides by nothing that depends on the order in which holdings are visited. -/
structure ReplayStrategy.Minds {ν σ : Type} (asset : String) (s : ReplayStrategy ν σ) : Prop where
  uses : s.Uses (Operation.Concerns asset) fun o _ => o.asset = asset
  blind : s.Blind (Session.Revisited asset)

/-- Replays with related sessions that are the same else, but for the journal. -/
structure Replay.SameRun {ν σ : Type} (R : Session → Session → Prop) (r r' : Replay ν σ) : Prop where
  workspace : r.workspace.SameWork R r'.workspace
  state : r.state = r'.state
  aggregator : r.aggregator = r'.aggregator
  curve : r.curve = r'.curve

namespace Replay

variable {ν σ ω α : Type} {may : Operation → Prop} {sends : Order → Venue → Prop} {R : Session → Session → Prop}
  {op : Operation} {g : α → Option Decimal} {x : BrokerM α} {asset : String}

theorem respects_onWorkspace {x : WorkM ν α} (hx : Respects (Workspace.SameWork R) x) :
    Respects (SameRun R) (onWorkspace (σ := σ) x) := by
  intro r r' h
  have hw := hx _ _ h.workspace
  unfold onWorkspace
  generalize x r.workspace = res at hw
  generalize x r'.workspace = res' at hw
  cases hw with
  | ok hw => exact .ok ⟨hw, h.state, h.aggregator, h.curve⟩
  | error hw => exact .error ⟨hw, h.state, h.aggregator, h.curve⟩

/-- What is done to the account is one of the operations that sessions answer alike. -/
theorem respects_onBroker (hR : Session.Alike may sends R) (hop : may op) (hg : Function.Injective g)
    (hx : op.run = g <$> x) : Respects (SameRun R) (onBroker (ν := ν) (σ := σ) x) := by
  have hmap : Session.onBroker op.run = g <$> Session.onBroker x := by
    rw [hx]
    funext s
    simp only [Session.onBroker, Functor.map, EStateM.map]
    cases x s.broker <;> rfl
  have ho : Respects R (g <$> Session.onBroker x) := hmap ▸ hR.operated hop
  exact respects_onWorkspace (Workspace.respects_onSession (ho.of_map hg))

theorem respects_faultable (y : Faultable α) : Respects (SameRun R) (liftM y : ReplayM ν σ α) :=
  respects_lift (liftM y : Halting α)

theorem respects_present (hR : Session.Alike may sends R) {s : Strategy ν ω σ} (hu : s.Uses may sends)
    (hb : s.Blind R) (x : ω) : Respects (SameRun R) (present s x) := by
  refine respects_get_bind fun r r' h => ⟨by rw [h.state], ?_⟩
  refine (respects_onWorkspace (Program.respects_run hR (hu _ x) (hb _ x))).bind fun ⟨answer, state⟩ => ?_
  refine (respects_modify fun _ _ h => ⟨h.workspace, rfl, h.aggregator, h.curve⟩).bind fun _ => ?_
  exact respects_lift (liftM (tolerate answer) : Halting Unit)

theorem respects_aggregate (t : Tick) : Respects (SameRun R) (aggregate (ν := ν) (σ := σ) t) := by
  refine respects_get_bind fun r r' h => ⟨by rw [h.aggregator], ?_⟩
  cases r.aggregator with
  | none => exact respects_pure none
  | some a =>
    refine (respects_faultable _).bind fun ⟨closed, a⟩ => ?_
    exact (respects_modify fun r r' h => ⟨h.workspace, h.state, rfl, h.curve⟩).bind fun _ => respects_pure closed

theorem respects_mark (hR : Session.Alike may sends R) (hmark : may .markEquity) (time : Instant) :
    Respects (SameRun R) (mark (ν := ν) (σ := σ) time) :=
  (respects_onBroker hR hmark (Option.some_injective _) rfl).bind fun equity => respects_modify fun _ _ h =>
    ⟨h.workspace, h.state, h.aggregator, congrArg (· ++ [(time, equity)]) h.curve⟩

variable {s : ReplayStrategy ν σ}

theorem respects_dispatch (hR : Session.Alike may sends R) (hu : s.Uses may sends) (hb : s.Blind R) (t : Tick) :
    Respects (SameRun R) (dispatch t s) := by
  cases s with
  | ticks s => exact respects_present hR hu hb t
  | candles _ s =>
    refine (respects_aggregate t).bind fun closed => ?_
    cases closed with
    | none => exact respects_pure ()
    | some c => exact respects_present hR hu hb c

theorem respects_step (hR : Session.Alike may sends R) (hmay : ∀ op : Operation, op.Concerns asset → may op)
    (hu : s.Uses may sends) (hb : s.Blind R) (t : Tick) : Respects (SameRun R) (step s t) := by
  have hunit : Function.Injective fun _ : Unit => (none : Option Decimal) := Function.injective_of_subsingleton _
  refine (respects_onBroker hR (hmay (.setClock t.time) trivial) hunit (bind_pure_comp _ _)).bind fun _ => ?_
  refine (respects_onBroker hR (hmay (.setPrice t.asset t.price) trivial) hunit (bind_pure_comp _ _)).bind fun _ => ?_
  exact (respects_dispatch hR hu hb t).bind fun _ => respects_mark hR (hmay .markEquity trivial) t.time

theorem respects_flush (hR : Session.Alike may sends R) (hu : s.Uses may sends) (hb : s.Blind R) :
    Respects (SameRun R) (flush s) := by
  cases s with
  | ticks s => exact respects_pure ()
  | candles _ s =>
    refine respects_get_bind fun r r' h => ⟨by rw [h.aggregator], ?_⟩
    cases r.aggregator with
    | none => exact respects_pure ()
    | some a =>
      refine (respects_modify fun r r' h => ⟨h.workspace, h.state, rfl, h.curve⟩).bind fun _ => ?_
      split
      · exact respects_present hR hu hb _
      · exact respects_pure ()

theorem respects_settle (hR : Session.Alike may sends R) (hmay : ∀ op : Operation, op.Concerns asset → may op)
    (c : BacktestConfig) (price : Decimal) : Respects (SameRun R) (settle (ν := ν) (σ := σ) c asset price) := by
  unfold settle
  split
  · rename_i outcome _
    have hop : may (.resolve asset outcome) := hmay _ rfl
    exact (respects_onBroker hR hop (Option.some_injective _) rfl).discard
  · split
    · have hop : may (.liquidate asset price) := hmay _ rfl
      exact (respects_onBroker hR hop (Option.some_injective _) rfl).discard
    · exact respects_pure ()

theorem respects_runTicks {first : Tick} (hR : Session.Alike may sends R)
    (hmay : ∀ op : Operation, op.Concerns first.asset → may op) (hu : s.Uses may sends) (hb : s.Blind R)
    (c : BacktestConfig) (rest : List Tick) : Respects (SameRun R) (runTicks c s first rest) := by
  refine (respects_forM (respects_step hR hmay hu hb) _).bind fun _ => (respects_flush hR hu hb).bind fun _ => ?_
  refine (respects_settle hR hmay c _).bind fun _ => ?_
  refine (respects_mark hR (hmay .markEquity trivial) _).bind fun _ => respects_get_bind fun r r' h => ?_
  refine ⟨?_, respects_faultable _⟩
  obtain ⟨hsnapshot, htrades⟩ := hR.told h.workspace.session
  unfold result
  rw [hsnapshot, htrades, h.curve]

end Replay

section Alone

variable {ν σ : Type} {may : Operation → Prop} {sends : Order → Venue → Prop} {R : Session → Session → Prop}
  {c : BacktestConfig} {s : ReplayStrategy ν σ} {asset : String} {ticks : List Tick}

/-- What a market comes to depends neither on the journal nor on anything in which sessions that answer alike differ. -/
theorem fst_runMarket_of_alike (hR : Session.Alike may sends R)
    (hmay : ∀ first, ticks.head? = some first → ∀ op : Operation, op.Concerns first.asset → may op)
    (hu : s.Uses may sends) (hb : s.Blind R) {v v' : Visiting}
    (hstart : R (.new (.new c.broker v) c.broker.latencyMillis) (.new (.new c.broker v') c.broker.latencyMillis))
    (state : σ) (js js' : List ν) : (runMarket c v s state ticks js).1 = (runMarket c v' s state ticks js').1 := by
  cases ticks with
  | nil => rfl
  | cons first rest =>
    unfold runMarket
    dsimp only
    split
    · rfl
    · rename_i aggregator _
      have hsame : (Replay.start c v s state aggregator js).SameRun R (Replay.start c v' s state aggregator js') :=
        ⟨⟨hstart, rfl⟩, rfl, rfl, rfl⟩
      have hruns := Replay.respects_runTicks hR (hmay first rfl) hu hb c rest _ _ hsame
      generalize Replay.runTicks c s first rest (Replay.start c v s state aggregator js) = r at hruns
      generalize Replay.runTicks c s first rest (Replay.start c v' s state aggregator js') = r' at hruns
      cases hruns <;> rfl

/-- What a market comes to does not depend on the journal. -/
theorem fst_runMarket (c : BacktestConfig) (v : Visiting) (s : ReplayStrategy ν σ) (state : σ) (ticks : List Tick)
    (js js' : List ν) : (runMarket c v s state ticks js).1 = (runMarket c v s state ticks js').1 :=
  fst_runMarket_of_alike Session.alike_eq (fun _ _ _ _ => trivial) s.uses_true s.blind_eq rfl state js js'

/-- What a market comes to whose strategy minds its own asset does not depend on the order of visits either. -/
theorem fst_runMarket_of_minds (hl : c.broker.latencyMillis = 0) (hs : s.Minds asset)
    (ha : ∀ first, ticks.head? = some first → first.asset = asset) (v v' : Visiting) (state : σ) (js js' : List ν) :
    (runMarket c v s state ticks js).1 = (runMarket c v' s state ticks js').1 := by
  refine fst_runMarket_of_alike (Session.alike_revisited asset) (fun first hf op hop => ?_) hs.uses hs.blind ?_ state js
    js'
  · rw [← ha first hf]
    exact hop
  · exact ⟨hl, rfl, ⟨Ledger.sole_empty asset, v', rfl⟩, rfl⟩

end Alone

section Answers

variable {ε σ α β : Type} {x : EStateM ε σ α} {y : Except ε α} {g : α → Except ε β}

/-- A result in some state. -/
def resultIn (y : Except ε α) (s : σ) : EStateM.Result ε σ α :=
  match y with
  | .ok a => .ok a s
  | .error e => .error e s

theorem mapM_eq_ok_iff {as : List α} {bs : List β} :
    as.mapM g = .ok bs ↔ List.Forall₂ (fun a b => g a = .ok b) as bs := by
  induction as generalizing bs with
  | nil =>
    rw [List.mapM_nil, pure_eq_ok_iff, List.forall₂_nil_left_iff, eq_comm]
  | cons a as ih =>
    simp only [List.mapM_cons, bind_eq_ok_iff, pure_eq_ok_iff, List.forall₂_cons_left_iff, ih]
    constructor
    · rintro ⟨b, hb, bs, hbs, rfl⟩
      exact ⟨b, bs, hb, hbs, rfl⟩
    · rintro ⟨b, bs, hb, hbs, rfl⟩
      exact ⟨b, hb, bs, hbs, rfl⟩

/-- A list fails where the first of its elements does. -/
theorem exists_of_mapM_eq_error {as : List α} {e : ε} (h : as.mapM g = .error e) :
    ∃ before a after, as = before ++ a :: after ∧ (∀ a ∈ before, ∃ b, g a = .ok b) ∧ g a = .error e := by
  induction as with
  | nil => cases h
  | cons a as ih =>
    rw [List.mapM_cons] at h
    obtain h | ⟨b, hb, h⟩ := bind_eq_error_iff.1 h
    · exact ⟨[], a, as, rfl, by simp, h⟩
    · obtain h | ⟨bs, -, h⟩ := bind_eq_error_iff.1 h
      · obtain ⟨before, a', after, rfl, hok, herr⟩ := ih h
        exact ⟨a :: before, a', after, rfl, List.forall_mem_cons.2 ⟨⟨b, hb⟩, hok⟩, herr⟩
      · exact absurd h pure_ne_error

end Answers

namespace Market

variable {ν σ : Type}

/-- Whether there is anything to replay. -/
def traded (m : Market) : Bool := !m.ticks.isEmpty

/-- Whether the ticks belong to the asset that they are listed under. -/
def Labelled (m : Market) : Prop := ∀ first, m.ticks.head? = some first → first.asset = m.asset

/-- The replay of a market on its own, with a strategy of its own, on an account that visits its holdings so. -/
def replay (c : BacktestConfig) (v : Visiting) (make : String → ReplayStrategy ν σ × σ) (m : Market) :
    Halting BacktestResult := (runMarket c v (make m.asset).1 (make m.asset).2 m.ticks []).1

/-- What a market comes to on its own: nothing without ticks, an error if they are another's, else its replay. -/
def alone (c : BacktestConfig) (v : Visiting) (make : String → ReplayStrategy ν σ × σ) (m : Market) :
    Halting (Option BacktestResult) :=
  match m.ticks with
  | [] => .ok none
  | first :: _ =>
    if first.asset ≠ m.asset then
      .error (.error (.marketNotFound s!"{m.asset} (ticks supplied are for {first.asset})"))
    else some <$> m.replay c v make

/-- Whether a market does not stand in the way of the others: there is nothing to replay, or it can be replayed. -/
def Passes (c : BacktestConfig) (v : Visiting) (make : String → ReplayStrategy ν σ × σ) (m : Market) : Prop :=
  m.traded = true → m.Labelled ∧ ∃ x, m.replay c v make = .ok x

/-- Markets with the numbers of the accounts that they are replayed on. One without ticks takes up none. -/
def numbered : ℕ → List Market → List (ℕ × Market)
  | _, [] => []
  | k, m :: ms => (k, m) :: numbered (k + m.traded.toNat) ms

variable {c : BacktestConfig} {v : Visiting} {visits : ℕ → Visiting} {make : String → ReplayStrategy ν σ × σ}
  {m : Market} {ms : List Market} {x : BacktestResult} {k : ℕ}

theorem alone_eq_ok_none_iff : m.alone c v make = .ok none ↔ m.traded = false := by
  unfold alone traded
  cases m.ticks with
  | nil => simp
  | cons first rest =>
    dsimp only
    split
    · simp
    · cases m.replay c v make <;> simp [Functor.map, Except.map]

theorem alone_eq_ok_some_iff :
    m.alone c v make = .ok (some x) ↔ m.traded = true ∧ m.Labelled ∧ m.replay c v make = .ok x := by
  unfold alone traded Labelled
  cases m.ticks with
  | nil => simp
  | cons first rest =>
    dsimp only
    split
    · rename_i hne
      simp [hne]
    · rename_i he
      cases m.replay c v make <;> simp [Functor.map, Except.map, not_not.1 he]

theorem passes_iff : m.Passes c v make ↔ ∃ r, m.alone c v make = .ok r := by
  constructor
  · intro h
    by_cases ht : m.traded = true
    · obtain ⟨hl, x, hx⟩ := h ht
      exact ⟨some x, alone_eq_ok_some_iff.2 ⟨ht, hl, hx⟩⟩
    · exact ⟨none, alone_eq_ok_none_iff.2 (Bool.eq_false_iff.2 ht)⟩
  · rintro ⟨_ | x, h⟩ ht
    · rw [alone_eq_ok_none_iff.1 h] at ht
      cases ht
    · obtain ⟨-, hl, hx⟩ := alone_eq_ok_some_iff.1 h
      exact ⟨hl, x, hx⟩

theorem exists_mem_numbered (h : m ∈ ms) (k : ℕ) : ∃ n, (n, m) ∈ numbered k ms := by
  induction ms generalizing k with
  | nil => cases h
  | cons m' ms ih =>
    obtain rfl | h := List.mem_cons.1 h
    · exact ⟨k, List.mem_cons_self⟩
    · obtain ⟨n, hn⟩ := ih h (k + m'.traded.toNat)
      exact ⟨n, List.mem_cons_of_mem _ hn⟩

/-- If its strategy minds its own asset, a market comes to the same in whatever order the account visits holdings. -/
theorem replay_of_minds (hl : c.broker.latencyMillis = 0) (hs : (make m.asset).1.Minds m.asset) (hm : m.Labelled)
    (v v' : Visiting) : m.replay c v make = m.replay c v' make := fst_runMarket_of_minds hl hs hm v v' _ [] []

/-- The results of all markets are the results of those that there is something to replay of, in order, and on accounts
numbered in this order. -/
theorem map_ok_filterMap {rs : List (Option BacktestResult)}
    (h : List.Forall₂ (fun m r => m.2.alone c (visits m.1) make = .ok r) (numbered k ms) rs) :
    (rs.filterMap id).map .ok = (ms.filter traded).mapIdx fun i m => m.replay c (visits (k + i)) make := by
  induction ms generalizing k rs with
  | nil =>
    cases h
    rfl
  | cons m ms ih =>
    cases h with
    | @cons _ r _ rs hr hrest =>
      cases r with
      | none =>
        have ht : m.traded = false := alone_eq_ok_none_iff.1 hr
        rw [ht] at hrest
        have hrest := ih hrest
        rw [List.filter_cons_of_neg (by rw [ht]; decide)]
        exact hrest
      | some x =>
        obtain ⟨ht, -, hx⟩ := alone_eq_ok_some_iff.1 hr
        rw [ht] at hrest
        have hx : m.replay c (visits (k + 0)) make = .ok x := hx
        rw [List.filter_cons_of_pos ht, List.mapIdx_cons, hx]
        simp only [← Nat.add_assoc, Nat.add_right_comm k _ 1]
        exact congrArg (.ok x :: ·) (ih hrest)

end Market

namespace PortfolioResult

/-- A result that adds up what its markets came to, each of which was given the same cash. -/
structure AddsUp (p : PortfolioResult) (allocation : Decimal) : Prop where
  startingCapital : allocation.mul (.ofNat p.markets.length) = .ok p.startingCapital
  endingCapital : Decimal.sum (p.markets.map BacktestResult.finalCapital) = .ok p.endingCapital
  totalReturnPercent : gainPercent p.startingCapital p.endingCapital = .ok p.totalReturnPercent
  trades : p.trades = (p.markets.map BacktestResult.trades).sum
  wins : p.wins = (p.markets.map BacktestResult.wins).sum
  losses : p.losses = (p.markets.map BacktestResult.losses).sum
  winRate : rate p.wins p.losses = .ok p.winRate
  ledger : p.ledger = p.markets.flatMap BacktestResult.ledger

theorem total_eq_sum (count : BacktestResult → ℕ) (rs : List BacktestResult) : total count rs = (rs.map count).sum := by
  unfold total
  rw [List.sum_eq_foldl, List.foldl_map]

theorem addsUp_of_ofMarkets {allocation : Decimal} {rs : List BacktestResult} {p : PortfolioResult}
    (h : ofMarkets allocation rs = .ok p) : p.markets = rs ∧ p.AddsUp allocation := by
  simp only [ofMarkets, bind_eq_ok_iff, pure_eq_ok_iff] at h
  obtain ⟨starting, hs, ending, he, percent, hp, rate, hr, rfl⟩ := h
  exact ⟨rfl, hs, he, hp, total_eq_sum _ rs, total_eq_sum _ rs, total_eq_sum _ rs, hr, rfl⟩

end PortfolioResult

section Portfolio

open Market

variable {ν σ : Type} {c : BacktestConfig} {visits : ℕ → Visiting} {make : String → ReplayStrategy ν σ × σ}
  {ms : List Market} {p : PortfolioResult} {h : Halt}

/-- A market comes to what it comes to alone, on the next account, which it takes up if it has ticks. -/
theorem PortfolioRun.run_market (c : BacktestConfig) (visits : ℕ → Visiting)
    (make : String → ReplayStrategy ν σ × σ) (m : Market) (r : PortfolioRun ν) : ∃ r',
    market c visits make m r = resultIn (m.alone c (visits r.made.length) make) r' ∧
    ∀ x, m.alone c (visits r.made.length) make = .ok x → r'.made.length = r.made.length + m.traded.toNat := by
  unfold market alone traded
  cases hticks : m.ticks with
  | nil => exact ⟨r, rfl, fun _ _ => rfl⟩
  | cons first rest =>
    dsimp only
    by_cases hl : first.asset ≠ m.asset
    · rw [if_pos hl, if_pos hl]
      exact ⟨r, rfl, nofun⟩
    · rw [if_neg hl, if_neg hl, run_get_bind, run_modify_bind, fst_runMarket _ _ _ _ _ r.journal [], ← hticks]
      let journal := (runMarket c (visits r.made.length) (make m.asset).1 (make m.asset).2 m.ticks r.journal).2
      refine ⟨⟨journal, r.made ++ [m.asset]⟩, ?_, fun _ _ => ?_⟩
      · change (some <$> liftM (m.replay c (visits r.made.length) make) : PortfolioM ν _) _ = _
        cases m.replay c (visits r.made.length) make <;> rfl
      · rw [hticks]
        exact List.length_append

theorem PortfolioRun.run_mapM (c : BacktestConfig) (visits : ℕ → Visiting)
    (make : String → ReplayStrategy ν σ × σ) (ms : List Market) (r : PortfolioRun ν) : ∃ r',
    ms.mapM (market c visits make) r =
      resultIn ((numbered r.made.length ms).mapM fun m => m.2.alone c (visits m.1) make) r' := by
  induction ms generalizing r with
  | nil => exact ⟨r, rfl⟩
  | cons m ms ih =>
    obtain ⟨u, hu, hcount⟩ := run_market c visits make m r
    unfold numbered
    rw [List.mapM_cons, List.mapM_cons]
    cases hm : m.alone c (visits r.made.length) make with
    | error e =>
      rw [hm] at hu
      exact ⟨u, run_bind_eq_error_iff.2 (.inl hu)⟩
    | ok x =>
      rw [hm] at hu
      obtain ⟨r', hr⟩ := ih u
      rw [hcount x hm] at hr
      refine ⟨r', ?_⟩
      rw [run_bind_of_ok hu]
      generalize List.mapM (fun m => m.2.alone c (visits m.1) make) (numbered (r.made.length + m.traded.toNat) ms) = y
        at hr ⊢
      cases y with
      | ok xs => exact run_bind_of_ok hr
      | error e => exact run_bind_eq_error_iff.2 (.inl hr)

/-- A portfolio run comes to what its markets come to alone, one after the other, and then to their sum. -/
theorem fst_runPortfolio : (runPortfolio c visits make ms).1 =
    (numbered 0 ms).mapM (fun m => m.2.alone c (visits m.1) make) >>= fun rs =>
      liftM (liftM (PortfolioResult.ofMarkets c.broker.startingCash (rs.filterMap id)) : Faultable _) := by
  obtain ⟨r, hr⟩ := PortfolioRun.run_mapM c visits make ms ⟨[], []⟩
  unfold runPortfolio PortfolioRun.run
  change ms.mapM (PortfolioRun.market c visits make) ⟨[], []⟩ =
    resultIn (List.mapM (fun m => m.2.alone c (visits m.1) make) (numbered 0 ms)) r at hr
  generalize List.mapM (fun m => m.2.alone c (visits m.1) make) (numbered 0 ms) = y at hr ⊢
  cases y with
  | error e =>
    rw [run_bind_eq_error_iff.2 (.inl hr)]
    rfl
  | ok rs =>
    rw [run_bind_of_ok hr]
    change _ = (liftM (liftM (PortfolioResult.ofMarkets c.broker.startingCash (rs.filterMap id)) : Faultable _) :
      Halting _)
    cases PortfolioResult.ofMarkets c.broker.startingCash (rs.filterMap id) <;> rfl

theorem runPortfolio_eq_ok_iff : (runPortfolio c visits make ms).1 = .ok p ↔
    ∃ rs, List.Forall₂ (fun m r => m.2.alone c (visits m.1) make = .ok r) (numbered 0 ms) rs ∧
      PortfolioResult.ofMarkets c.broker.startingCash (rs.filterMap id) = .ok p := by
  rw [fst_runPortfolio, bind_eq_ok_iff]
  refine exists_congr fun rs => and_congr mapM_eq_ok_iff ?_
  exact mapError_eq_ok_iff.trans checked_eq_ok_iff

/-- A run that fails without a fault fails as the first market does that does not pass. -/
theorem exists_of_runPortfolio_eq_error (hf : ∀ f, h ≠ .fault f) (he : (runPortfolio c visits make ms).1 = .error h) :
    ∃ before m after, numbered 0 ms = before ++ m :: after ∧ (∀ m' ∈ before, m'.2.Passes c (visits m'.1) make) ∧
      m.2.alone c (visits m.1) make = .error h := by
  rw [fst_runPortfolio] at he
  obtain he | ⟨rs, -, he⟩ := bind_eq_error_iff.1 he
  · obtain ⟨before, m, after, hms, hok, herr⟩ := exists_of_mapM_eq_error he
    exact ⟨before, m, after, hms, fun m' hm' => passes_iff.2 (hok m' hm'), herr⟩
  · cases hsum : (liftM (PortfolioResult.ofMarkets c.broker.startingCash (rs.filterMap id)) : Faultable _) with
    | ok p =>
      rw [hsum] at he
      cases he
    | error f =>
      rw [hsum] at he
      cases he
      exact absurd rfl (hf f)

theorem passes_of_runPortfolio (hp : (runPortfolio c visits make ms).1 = .ok p) :
    ∀ m ∈ numbered 0 ms, m.2.Passes c (visits m.1) make := by
  intro m hm
  obtain ⟨rs, hall, -⟩ := runPortfolio_eq_ok_iff.1 hp
  obtain ⟨i, rfl⟩ := List.get_of_mem hm
  exact passes_iff.2 ⟨_, hall.get i.2 (hall.length_eq ▸ i.2)⟩

theorem addsUp_of_runPortfolio (hp : (runPortfolio c visits make ms).1 = .ok p) :
    p.markets.map .ok = ((ms.filter traded).mapIdx fun i m => m.replay c (visits i) make) ∧
      p.AddsUp c.broker.startingCash := by
  obtain ⟨rs, hall, hsum⟩ := runPortfolio_eq_ok_iff.1 hp
  obtain ⟨hmarkets, hadds⟩ := PortfolioResult.addsUp_of_ofMarkets hsum
  have hresults := map_ok_filterMap hall
  simp only [Nat.zero_add] at hresults
  rw [hmarkets]
  exact ⟨hresults, hadds⟩

/-- The result of a market stands where its place among the markets with ticks is. -/
theorem exists_of_place {m : Market} {before after : List Market} (ht : m.traded = true)
    (hp : (runPortfolio c visits make (before ++ m :: after)).1 = .ok p) :
    ∃ x, m.replay c (visits (before.countP traded)) make = .ok x ∧ p.markets[before.countP traded]? = some x := by
  have hplace : p.markets[before.countP traded]?.map .ok =
      some (m.replay c (visits (before.countP traded)) make) := by
    rw [← List.getElem?_map, (addsUp_of_runPortfolio hp).1, List.getElem?_mapIdx, List.filter_append,
      List.filter_cons_of_pos ht, List.countP_eq_length_filter, List.getElem?_append_right (Nat.le_refl _)]
    simp
  cases hx : p.markets[before.countP traded]? with
  | none =>
    rw [hx] at hplace
    cases hplace
  | some x =>
    rw [hx] at hplace
    exact ⟨x, (Option.some.inj hplace).symm, rfl⟩

/-- Markets of a portfolio keep apart, in whatever orders its accounts visit their holdings. Unless it faults, a run
succeeds if each market passes alone, and else fails as the first one does that does not pass. Its result lists what
the markets come to alone and adds it up. The result of a market is the same whatever stands before and after it, on
an account that visits holdings in the same order, and on any account if its strategy minds its own asset. -/
theorem isolated_of_runPortfolio (hf : ∀ f, (runPortfolio c visits make ms).1 ≠ .error (.fault f)) :
    ((∃ p, (runPortfolio c visits make ms).1 = .ok p) ↔
      ∀ m ∈ numbered 0 ms, m.2.Passes c (visits m.1) make) ∧
    (∀ h, (runPortfolio c visits make ms).1 = .error h → ∃ before m after, numbered 0 ms = before ++ m :: after ∧
      (∀ m' ∈ before, m'.2.Passes c (visits m'.1) make) ∧ m.2.alone c (visits m.1) make = .error h) ∧
    (∀ p, (runPortfolio c visits make ms).1 = .ok p →
      p.markets.map .ok = ((ms.filter traded).mapIdx fun i m => m.replay c (visits i) make) ∧
        p.AddsUp c.broker.startingCash) ∧
    (∀ visits' before m after before' after' p p', ms = before ++ m :: after → m.traded = true →
      (runPortfolio c visits make ms).1 = .ok p → (runPortfolio c visits' make (before' ++ m :: after')).1 = .ok p' →
      visits (before.countP traded) = visits' (before'.countP traded) ∨
        c.broker.latencyMillis = 0 ∧ (make m.asset).1.Minds m.asset →
      p.markets[before.countP traded]? = p'.markets[before'.countP traded]?) ∧
    ∀ m ∈ ms, m.Labelled → c.broker.latencyMillis = 0 → (make m.asset).1.Minds m.asset →
      ∀ v v', m.replay c v make = m.replay c v' make := by
  refine ⟨⟨fun ⟨p, hp⟩ => passes_of_runPortfolio hp, fun hall => ?_⟩, fun h he => ?_, fun p => addsUp_of_runPortfolio,
    ?_, fun m _ hm hl hs => replay_of_minds hl hs hm⟩
  · cases hrun : (runPortfolio c visits make ms).1 with
    | ok p => exact ⟨p, rfl⟩
    | error h =>
      obtain ⟨before, m, after, hms, -, herr⟩ :=
        exists_of_runPortfolio_eq_error (fun f hh => hf f (hh ▸ hrun)) hrun
      obtain ⟨r, hr⟩ := passes_iff.1 (hall m (hms ▸ by simp))
      rw [herr] at hr
      cases hr
  · exact exists_of_runPortfolio_eq_error (fun f hh => hf f (hh ▸ he)) he
  · rintro visits' before m after before' after' p p' rfl ht hp hp' hsame
    obtain ⟨x, hx, hplace⟩ := exists_of_place ht hp
    obtain ⟨x', hx', hplace'⟩ := exists_of_place ht hp'
    have hreplay : m.replay c (visits (before.countP traded)) make =
        m.replay c (visits' (before'.countP traded)) make := by
      obtain hv | ⟨hl, hs⟩ := hsame
      · rw [hv]
      · obtain ⟨n, hn⟩ := exists_mem_numbered (List.mem_append_right before (List.mem_cons_self (l := after))) 0
        exact replay_of_minds hl hs (passes_of_runPortfolio hp (n, m) hn ht).1 _ _
    rw [hplace, hplace']
    rw [hx, hx'] at hreplay
    cases hreplay
    rfl

/-- A strategy for each market. -/
def rainBuyers : String → ReplayStrategy Unit Unit × Unit := fun _ => (rainBuyer, ())

/-- Rain is listed twice, with another last price, and nothing is known of snow. -/
def rainTwice : List Market :=
  [⟨"rain", forkedTicks (.lit 9 1)⟩, ⟨"snow", []⟩, ⟨"rain", forkedTicks (.lit 1 1)⟩]

/-- Accounts that take turns in how they visit their holdings. -/
def turns (k : ℕ) : Visiting := if k % 2 = 0 then .oldestFirst else .newestFirst

/-- The first market comes to the same if it is replayed last, and on an account that visits holdings the other way
round. -/
theorem isolated_of_rainTwice : ∃ p p' x, (runPortfolio .standard turns rainBuyers rainTwice).1 = .ok p ∧
    (runPortfolio .standard turns rainBuyers rainTwice.reverse).1 = .ok p' ∧
    p.markets.map .ok = ((rainTwice.filter traded).mapIdx fun i m => m.replay .standard (turns i) rainBuyers) ∧
    p.AddsUp BacktestConfig.standard.broker.startingCash ∧ p.markets[0]? = some x ∧ p'.markets[1]? = some x := by
  have hruns : (∃ p ∈ (runPortfolio .standard turns rainBuyers rainTwice).1.toOption, p.markets.length = 2) ∧
      ∃ p ∈ (runPortfolio .standard turns rainBuyers rainTwice.reverse).1.toOption, p.markets.length = 2 := by
    decide +kernel
  obtain ⟨⟨p, hp, hlen⟩, p', hp', -⟩ := hruns
  have hp := eq_ok_of_mem_toOption hp
  have hp' := eq_ok_of_mem_toOption hp'
  have hf : ∀ f, (runPortfolio .standard turns rainBuyers rainTwice).1 ≠ .error (.fault f) := by
    intro f
    rw [hp]
    nofun
  have hminds : (rainBuyers "rain").1.Minds "rain" :=
    ⟨fun _ _ => ⟨rfl, fun _ => trivial⟩, fun _ _ => fun _ => trivial⟩
  obtain ⟨-, -, hadds, hsame, -⟩ := isolated_of_runPortfolio hf
  have hplaces : p.markets[0]? = p'.markets[1]? := hsame turns [] ⟨"rain", forkedTicks (.lit 9 1)⟩ _
    [⟨"rain", forkedTicks (.lit 1 1)⟩, ⟨"snow", []⟩] [] p p' rfl rfl hp hp' (.inr ⟨rfl, hminds⟩)
  obtain ⟨x, hx⟩ : ∃ x, p.markets[0]? = some x := ⟨_, List.getElem?_eq_getElem (hlen ▸ by decide)⟩
  exact ⟨p, p', x, hp, hp', (hadds p hp).1, (hadds p hp).2, hx, hplaces ▸ hx⟩

end Portfolio
end OutcomeMarket

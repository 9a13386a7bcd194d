import OutcomeMarket.Proofs.Live.Recording

/-! Feeds that agree asset by asset, whatever the order of the events of different assets. A maker that keeps a state of
its own, or is asked in another order, may make other strategies; the books and prices are the same even so. -/
namespace OutcomeMarket

/-- The same events for each asset, in the same order. -/
def Interleaved (es fs : List BookEvent) : Prop := ∀ asset, ownEvents asset es = ownEvents asset fs

namespace Interleaved

variable {es fs : List BookEvent}

theorem perm (h : Interleaved es fs) : es.Perm fs := by
  refine List.perm_iff_count.2 fun e => ?_
  have hcount : ∀ l, (ownEvents e.asset l).count e = l.count e := fun l => List.count_filter (by simp)
  rw [← hcount es, h, hcount fs]

/-- An asset that has an event in the one has an event in the other. -/
theorem isSome_findIdx? (h : Interleaved es fs) (asset : String) :
    (es.findIdx? (·.asset == asset)).isSome = (fs.findIdx? (·.asset == asset)).isSome := by
  rw [List.findIdx?_isSome, List.findIdx?_isSome]
  exact h.perm.any_eq

end Interleaved

namespace Trader

variable {ν σ : Type}

/-- With strategies that do nothing to the account, the book and the price of an asset and what its strategy is shown
depend on its own feed, not on how the feeds are interleaved. -/
theorem apart_of_interleaved {c : TraderConfig} {visiting visiting' : Visiting} {t t' : Trader ν σ}
    {u u' : Trader (BookView ⊕ ν) σ} (ht : new c visiting = .ok t) (hu : new c visiting = .ok u)
    (ht' : new c visiting' = .ok t') (hu' : new c visiting' = .ok u') {make make' : ℕ → Maker ν σ}
    (hq : ∀ i asset, (make i asset).1.Quiet) (hq' : ∀ i asset, (make' i asset).1.Quiet)
    {es fs : List BookEvent} (h : Interleaved es fs) :
    -- each book is the fold of its own events, each price the middle of its last state with both sides, and for each
    -- asset one strategy was asked for, at its first event
    Fed make es (handleAll make es t) ∧
    -- no maker is asked for anything else
    (∀ other : ℕ → Maker ν σ,
      (∀ i asset, es.findIdx? (·.asset == asset) = some i → other i asset = make i asset) →
        handleAll other es t = handleAll make es t) ∧
    -- the strategies of an asset are shown the states of its own book, each after its event
    Records (handleAll (fun i => (make i).recorded) es u) (handleAll make es t) ∧
    (∀ asset, (handleAll (fun i => (make i).recorded) es u).shown.filter (·.asset == asset) =
      ((Book.empty asset).states (ownEvents asset es)).map (⟨asset, ·⟩)) ∧
    -- and all this is the same for the other order, in another trader
    (∀ asset,
      (handleAll make es t).session.books.find? asset = (handleAll make' fs t').session.books.find? asset ∧
      (handleAll make es t).session.broker.lastKnownPrice asset =
        (handleAll make' fs t').session.broker.lastKnownPrice asset ∧
      ((handleAll make es t).desks.find? asset).isSome = ((handleAll make' fs t').desks.find? asset).isSome ∧
      (handleAll make es t).made.count asset = (handleAll make' fs t').made.count asset ∧
      (handleAll (fun i => (make i).recorded) es u).shown.filter (·.asset == asset) =
        (handleAll (fun i => (make' i).recorded) fs u').shown.filter (·.asset == asset)) ∧
    (handleAll make es t).events = (handleAll make' fs t').events := by
  have hfed := fed_handleAll ht hq es
  have hfed' := fed_handleAll ht' hq' fs
  obtain ⟨hrecords, hshown⟩ := records_handleAll hu ht hq es
  obtain ⟨-, hshown'⟩ := records_handleAll hu' ht' hq' fs
  refine ⟨hfed, fun other => handleAll_congr ht hq es, hrecords, hshown, fun asset => ⟨?_, ?_, ?_, ?_, ?_⟩, ?_⟩
  · rw [hfed.book, hfed'.book, h asset]
  · have hprice := hfed'.price asset
    rw [← h asset] at hprice
    exact (hfed.price asset).unique hprice
  · have hmade := congrArg Option.isSome (hfed.made asset)
    have hmade' := congrArg Option.isSome (hfed'.made asset)
    rw [Option.isSome_map, Option.isSome_map] at hmade hmade'
    rw [hmade, hmade', h.isSome_findIdx?]
  · rw [hfed.asked, hfed'.asked, h asset]
  · rw [hshown, hshown', h asset]
  · rw [hfed.events, hfed'.events, h.perm.length_eq]

/-- Strategies that count the books they are shown. -/
def watchers : ℕ → Maker Unit ℕ := fun _ _ =>
  (⟨⟨"watcher", "1.0.0", "counts what it is shown"⟩, fun n _ => .done (.ok (), n + 1)⟩, 0)

/-- Rain gets both sides and loses one again. -/
def rainFeed : List BookEvent :=
  [⟨"rain", [⟨"0.40", "100"⟩], [⟨"0.50", "100"⟩], true⟩, ⟨"rain", [], [⟨"0.50", "0"⟩], false⟩]

/-- Snow has never had any bids. -/
def snowFeed : List BookEvent := [⟨"snow", [], [⟨"0.30", "20"⟩, ⟨"2", "1"⟩], true⟩]

theorem interleaved_rainAndSnow : Interleaved (rainFeed ++ snowFeed) (snowFeed ++ rainFeed) := by
  intro asset
  unfold ownEvents
  rw [List.filter_append, List.filter_append]
  by_cases hr : "rain" = asset
  · subst hr
    rfl
  · have hrain : rainFeed.filter (·.asset == asset) = [] := by simp [rainFeed, hr]
    rw [hrain, List.append_nil, List.nil_append]

/-- A trader before its first event. -/
def fresh (ν σ : Type) (visiting : Visiting) : Trader ν σ :=
  ⟨.new (.new TraderConfig.standard.broker visiting) 0, .empty, [], [], 0, [], []⟩

theorem apart_of_rainAndSnow :
    let t := fresh Unit ℕ .oldestFirst
    let t' := fresh Unit ℕ .newestFirst
    new .standard .oldestFirst = .ok t ∧ new .standard .newestFirst = .ok t' ∧ (∀ i asset, (watchers i asset).1.Quiet) ∧
    Interleaved (rainFeed ++ snowFeed) (snowFeed ++ rainFeed) ∧
    (handleAll watchers (rainFeed ++ snowFeed) t).session.broker.lastKnownPrice "rain" = some (.lit 45 2) ∧
    (handleAll watchers (snowFeed ++ rainFeed) t').session.broker.lastKnownPrice "rain" = some (.lit 45 2) ∧
    (handleAll watchers (rainFeed ++ snowFeed) t).session.broker.lastKnownPrice "snow" = none ∧
    (handleAll watchers (snowFeed ++ rainFeed) t').session.broker.lastKnownPrice "snow" = none ∧
    (handleAll watchers (rainFeed ++ snowFeed) t).made = ["rain", "snow"] ∧
    (handleAll watchers (snowFeed ++ rainFeed) t').made.count "rain" = 1 ∧
    (handleAll watchers (snowFeed ++ rainFeed) t').events = 3 := by
  intro t t'
  have ht : new .standard .oldestFirst = .ok t := rfl
  have ht' : new .standard .newestFirst = .ok t' := rfl
  have hu : new .standard .oldestFirst = .ok (fresh (BookView ⊕ Unit) ℕ .oldestFirst) := rfl
  have hu' : new .standard .newestFirst = .ok (fresh (BookView ⊕ Unit) ℕ .newestFirst) := rfl
  have hq : ∀ i asset, (watchers i asset).1.Quiet := fun i asset state view => trivial
  obtain ⟨hfed, -, -, -, hsame, hevents⟩ := apart_of_interleaved ht hu ht' hu' hq hq interleaved_rainAndSnow
  have hrain : (handleAll watchers (rainFeed ++ snowFeed) t).session.broker.lastKnownPrice "rain" =
      some (.lit 45 2) := by decide +kernel
  have hsnow : (handleAll watchers (rainFeed ++ snowFeed) t).session.broker.lastKnownPrice "snow" = none := by
    decide +kernel
  have hmade : (handleAll watchers (rainFeed ++ snowFeed) t).made = ["rain", "snow"] := by decide +kernel
  have honce := (hsame "rain").2.2.2.1
  rw [hmade] at honce
  exact ⟨ht, ht', hq, interleaved_rainAndSnow, hrain, (hsame "rain").2.1 ▸ hrain, hsnow,
    (hsame "snow").2.1 ▸ hsnow, hmade, honce.symm, hevents ▸ hfed.events⟩

end Trader
end OutcomeMarket

import OutcomeMarket.Proofs.Replay.Candles

/-! Whether the candles of an accepted stream can be made. Accepted sizes are not negative, so that a candle of however
many ticks has a volume if twice what they come to is little enough. What remains is the end of a candle: a positive
timeframe may lead from its first tick out of the calendar, and then the candle takes no second tick. -/
namespace OutcomeMarket

namespace Tick

theorem size_nonneg_of_checkAll {asset : String} {ts : List Tick} (h : checkAll asset ts = .ok ()) :
    ∀ t ∈ ts, .zero ≤ t.size := by
  induction ts with
  | nil => exact List.forall_mem_nil _
  | cons t ts ih =>
    simp only [checkAll, validate, bind_eq_ok_iff, ensure_eq_ok_iff] at h
    obtain ⟨_, ⟨_, -, hsize⟩, _, -, hrest⟩ := h
    exact List.forall_mem_cons.2 ⟨hsize, ih hrest⟩

theorem size_nonneg_of_validateStream {ts : List Tick} (h : validateStream ts = .ok ()) :
    ∀ t ∈ ts, .zero ≤ t.size := by
  cases ts with
  | nil => exact List.forall_mem_nil _
  | cons t ts =>
    obtain ⟨_, hall, -⟩ := bind_eq_ok_iff.1 h
    exact size_nonneg_of_checkAll hall

/-- Ticks whose sizes can be added up, whichever of them one takes. -/
structure Addable (ts : List Tick) : Prop where
  size_nonneg : ∀ t ∈ ts, .zero ≤ t.size
  room : 2 * Decimal.total (ts.map Tick.size) + 1 ≤ Decimal.maxMantissa

namespace Addable

variable {ts us : List Tick}

theorem sublist (h : Addable ts) (hs : us.Sublist ts) : Addable us := by
  have hle := Decimal.total_le_of_sublist (hs.map Tick.size) (List.forall_mem_map.2 h.size_nonneg)
  have hroom := h.room
  exact ⟨fun t ht => h.size_nonneg t (hs.mem ht), by linarith⟩

theorem exists_sum (h : Addable ts) : ∃ v, Decimal.sum (ts.map Tick.size) = .ok v :=
  Decimal.exists_sum_of_twice (List.forall_mem_map.2 h.size_nonneg) h.room

end Addable

theorem addable_of_validateStream {ts : List Tick} (hv : validateStream ts = .ok ())
    (hs : Decimal.total (ts.map Tick.size) ≤ 10 ^ 20) : Addable ts := by
  refine ⟨size_nonneg_of_validateStream hv, ?_⟩
  rw [Decimal.cast_maxMantissa]
  linarith

/-- A tick that begins a stretch of more than one is not the last of all. -/
theorem mem_dropLast_of_head {s ts : List Tick} {stretches : List (List Tick)} {f : Tick}
    (hs : s ∈ stretches) (hflat : stretches.flatten = ts) (hf : f ∈ s.head?) (hlong : s.length ≠ 1) :
    f ∈ ts.dropLast := by
  obtain ⟨before, after, rfl⟩ := List.append_of_mem hs
  match s, hf, hlong with
  | g :: t :: rest, hf, _ =>
    cases hf
    have hts : ts = (before.flatten ++ [f]) ++ (t :: (rest ++ after.flatten)) := by
      rw [← hflat]
      simp
    rw [hts, List.dropLast_append_of_ne_nil (List.cons_ne_nil t _)]
    exact List.mem_append_left _ (List.mem_append_right _ List.mem_cons_self)

end Tick

namespace CandleAggregator

open Tick

variable {timeframe : Duration} {c : Candle} {t : Tick} {opened ts : List Tick} {e : Fault}

theorem exists_absorb (h : c.Summarises opened) (ha : Addable (opened ++ [t])) : ∃ c', c.absorb t = .ok c' := by
  obtain ⟨v, hv⟩ := ha.exists_sum
  rw [List.map_append, List.map_singleton, Decimal.sum_concat, h.volume] at hv
  exact ⟨_, Candle.absorb_eq_ok_iff.2 ⟨v, hv, rfl⟩⟩

/-- While the sizes can be added up, nothing but the calendar stops the candles. -/
theorem pushAll_eq_error (h : c.Summarises opened) (ha : Addable (opened ++ ts))
    (he : pushAll ⟨timeframe, some c⟩ ts = .error e) : e = .calendarOverflow := by
  induction ts generalizing c opened with
  | nil => cases he
  | cons t ts ih =>
    rw [List.append_cons] at ha
    obtain hpush | ⟨closed, u, hpush, hrest⟩ := pushAll_cons_eq_error_iff.1 he
    · obtain rfl | ⟨e', hfull⟩ := push_eq_error hpush
      · rfl
      · obtain ⟨c', hc'⟩ := exists_absorb h (ha.sublist (List.sublist_append_left _ ts))
        rw [hfull] at hc'
        cases hc'
    · obtain ⟨close, -, ⟨-, c', habsorb, -, rfl⟩ | ⟨-, -, rfl⟩⟩ := push_eq_ok_iff.1 hpush
      · exact ih (h.absorb habsorb) ha hrest
      · rw [List.append_assoc] at ha
        exact ih (Candle.summarises_openAt t) (ha.sublist (List.sublist_append_right opened _)) hrest

theorem aggregate_eq_error (ha : Addable ts) (he : aggregate timeframe ts = .error e) : e = .calendarOverflow := by
  simp only [aggregate, bind_eq_error_iff, pure_ne_error, and_false, exists_false, or_false] at he
  cases ts with
  | nil => cases he
  | cons t ts =>
    obtain hpush | ⟨closed, u, hpush, hrest⟩ := pushAll_cons_eq_error_iff.1 he
    · cases hpush
    · cases hpush
      exact pushAll_eq_error (Candle.summarises_openAt t) ha hrest

/-- Over an accepted stream with sizes of ordinary amount and at an accepted timeframe there are candles, unless one
that takes a second tick would end beyond the calendar; nothing else stops them. So there are if no tick but the last
sets an end out there. -/
theorem aggregates_of_accepted (hv : validateStream ts = .ok ()) (hd : 0 < timeframe.nanos)
    (hs : Decimal.total (ts.map Tick.size) ≤ 10 ^ 20) : ∃ stretches, GreedySplit timeframe ts stretches ∧
      ((∃ r, aggregate timeframe ts = .ok r) ↔
        ∀ s ∈ stretches, s.length = 1 ∨ ∃ f ∈ s.head?, ∃ close, f.time.add? timeframe = some close) ∧
      (∀ e, aggregate timeframe ts = .error e → e = .calendarOverflow) ∧
      ((∀ t ∈ ts.dropLast, ∃ close, t.time.add? timeframe = some close) → ∃ r, aggregate timeframe ts = .ok r) := by
  have ha := addable_of_validateStream hv hs
  have hsplit : GreedySplit timeframe ts (stretches timeframe ts) := (greedySplit_iff hd).2 rfl
  have hmade : (∃ r, aggregate timeframe ts = .ok r) ↔ ∀ s ∈ stretches timeframe ts,
      s.length = 1 ∨ ∃ f ∈ s.head?, ∃ close, f.time.add? timeframe = some close := by
    rw [exists_aggregate_iff]
    refine forall₂_congr fun s hmem => and_iff_right ?_
    have hsub : s.Sublist ts := hsplit.flatten ▸ List.sublist_flatten_of_mem hmem
    exact (ha.sublist hsub).exists_sum
  refine ⟨_, hsplit, hmade, fun e => aggregate_eq_error ha, fun hends => hmade.2 fun s hmem => ?_⟩
  by_cases hone : s.length = 1
  · exact .inl hone
  · obtain ⟨f, rest, rfl⟩ := List.exists_cons_of_ne_nil (hsplit.nonempty s hmem)
    exact .inr ⟨f, rfl, hends f (mem_dropLast_of_head hmem hsplit.flatten rfl hone)⟩

theorem aggregates_ticksAtBoundary : validateStream ticksAtBoundary = .ok () ∧
    Decimal.total (ticksAtBoundary.map Tick.size) ≤ 10 ^ 20 ∧
    ∃ r, aggregate (.ofMillis 60000) ticksAtBoundary = .ok r := by
  have hv : validateStream ticksAtBoundary = .ok () := by decide
  have hs : Decimal.total (ticksAtBoundary.map Tick.size) ≤ 10 ^ 20 := by decide +kernel
  have hd : 0 < (Duration.ofMillis 60000).nanos := by decide
  obtain ⟨_, -, -, -, hmade⟩ := aggregates_of_accepted hv hd hs
  have hends : ∀ t ∈ ticksAtBoundary.dropLast, (t.time.add? (.ofMillis 60000)).isSome = true := by decide
  exact ⟨hv, hs, hmade fun t ht => Option.isSome_iff_exists.1 (hends t ht)⟩

/-- Two ticks a minute apart, and candles of some three hundred thousand years: the first does not end within the
calendar, so that it does not take the second tick. -/
theorem calendar_left_by_candle : ¬ ∀ (timeframe : Duration) (ts : List Tick), validateStream ts = .ok () →
    0 < timeframe.nanos → Decimal.total (ts.map Tick.size) ≤ 10 ^ 20 → ∃ r, aggregate timeframe ts = .ok r := by
  intro h
  obtain ⟨r, hr⟩ := h (.ofMillis 9000000000000000)
    [⟨"rain", .epoch, .lit 4 1, .lit 1 0⟩, ⟨"rain", .secondsIn 60, .lit 5 1, .lit 2 0⟩]
    (by decide) (by decide) (by decide +kernel)
  have hfails : aggregate (.ofMillis 9000000000000000)
      [⟨"rain", .epoch, .lit 4 1, .lit 1 0⟩, ⟨"rain", .secondsIn 60, .lit 5 1, .lit 2 0⟩] =
        .error .calendarOverflow := by decide +kernel
  rw [hfails] at hr
  cases hr

end CandleAggregator
end OutcomeMarket

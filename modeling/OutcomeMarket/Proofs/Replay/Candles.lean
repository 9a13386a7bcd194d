import OutcomeMarket.Proofs.Computation
import OutcomeMarket.Proofs.Decimal.Sum
import OutcomeMarket.Replay.Candle

/-! What a run of candles tells about the ticks under it. The ticks fall into stretches, each as long as the
timeframe of its first tick allows, and there is one candle for each stretch. Between two ticks the aggregator
holds the candle of the open stretch, so the stretches are built here with the open one carried along. -/
namespace OutcomeMarket

namespace Instant

/-- So many seconds after the epoch, as far as the calendar goes. -/
def secondsIn (n : ℕ) : Instant := (ofParts? n 0).getD .epoch

/-- A positive span leads to a later instant, also out of and into a leap second. -/
theorem lt_of_add? {t u : Instant} {d : Duration} (hd : 0 < d.nanos) (h : t.add? d = some u) : t < u := by
  have ht := t.nanos_lt
  have hparts : ∀ {s : Int} {n : Nat}, ofParts? s n = some u → u.seconds = s ∧ u.nanos = n := by
    intro s n hn
    unfold ofParts? at hn
    split at hn
    · cases hn
      exact ⟨rfl, rfl⟩
    · cases hn
  change _ ∨ _
  unfold add? at h
  simp only [perSecond] at *
  split_ifs at h <;> obtain ⟨hs, hn⟩ := hparts h <;> omega

end Instant

namespace Decimal

theorem max_eq_or (a b : Decimal) : a.max b = a ∨ a.max b = b := by
  unfold max
  split
  · exact .inr rfl
  · exact .inl rfl

theorem min_eq_or (a b : Decimal) : a.min b = a ∨ a.min b = b := by
  unfold min
  split
  · exact .inr rfl
  · exact .inl rfl

end Decimal

namespace Candle

/-- A candle says of a stretch of ticks where it began and at what price, its last, highest and lowest price and
the total of its sizes from left to right. -/
structure Summarises (c : Candle) (ts : List Tick) : Prop where
  first : ∃ t, ts.head? = some t ∧ c.asset = t.asset ∧ c.openTime = t.time ∧ c.opening = t.price
  last : ∃ t, ts.getLast? = some t ∧ c.closing = t.price
  high : (∃ t ∈ ts, c.high = t.price) ∧ ∀ t ∈ ts, t.price ≤ c.high
  low : (∃ t ∈ ts, c.low = t.price) ∧ ∀ t ∈ ts, c.low ≤ t.price
  volume : Decimal.sum (ts.map Tick.size) = .ok c.volume

variable {c c' : Candle} {t : Tick} {ts : List Tick}

theorem summarises_openAt (t : Tick) : (openAt t).Summarises [t] where
  first := ⟨t, rfl, rfl, rfl, rfl⟩
  last := ⟨t, rfl, rfl⟩
  high := ⟨⟨t, List.mem_singleton_self t, rfl⟩, fun _ hu => List.mem_singleton.1 hu ▸ Decimal.le_refl _⟩
  low := ⟨⟨t, List.mem_singleton_self t, rfl⟩, fun _ hu => List.mem_singleton.1 hu ▸ Decimal.le_refl _⟩
  volume := Decimal.sum_single t.size

theorem absorb_eq_ok_iff : c.absorb t = .ok c' ↔ ∃ v, c.volume.add t.size = .ok v ∧
    { c with high := c.high.max t.price, low := c.low.min t.price, closing := t.price, volume := v } = c' := by
  unfold absorb
  rw [bind_eq_ok_iff]
  simp only [pure_eq_ok_iff]

/-- One more tick makes the stretch longer by that tick. -/
theorem Summarises.absorb (h : c.Summarises ts) (ha : c.absorb t = .ok c') : c'.Summarises (ts ++ [t]) := by
  obtain ⟨v, hv, rfl⟩ := absorb_eq_ok_iff.1 ha
  have hold : ∀ {u}, u ∈ ts → u ∈ ts ++ [t] := fun hu => List.mem_append_left _ hu
  have hnew : t ∈ ts ++ [t] := List.mem_append_right _ (List.mem_singleton_self t)
  obtain ⟨f, hf, hfirst⟩ := h.first
  refine ⟨⟨f, ?_, hfirst⟩, ⟨t, List.getLast?_concat, rfl⟩, ⟨?_, fun u hu => ?_⟩, ⟨?_, fun u hu => ?_⟩, ?_⟩
  · rw [List.head?_append, hf]
    rfl
  · obtain ⟨u, hu, hh⟩ := h.high.1
    obtain hm | hm := Decimal.max_eq_or c.high t.price
    · exact ⟨u, hold hu, hm.trans hh⟩
    · exact ⟨t, hnew, hm⟩
  · obtain hu | hu := List.mem_append.1 hu
    · exact Decimal.le_trans (h.high.2 u hu) (Decimal.le_max_left _ _)
    · rw [List.mem_singleton.1 hu]
      exact Decimal.le_max_right _ _
  · obtain ⟨u, hu, hl⟩ := h.low.1
    obtain hm | hm := Decimal.min_eq_or c.low t.price
    · exact ⟨u, hold hu, hm.trans hl⟩
    · exact ⟨t, hnew, hm⟩
  · obtain hu | hu := List.mem_append.1 hu
    · exact Decimal.le_trans (Decimal.min_le_left _ _) (h.low.2 u hu)
    · rw [List.mem_singleton.1 hu]
      exact Decimal.min_le_right _ _
  · rw [List.map_append, List.map_singleton, Decimal.sum_concat, h.volume]
    exact hv

theorem closeTime_eq_ok_iff {timeframe : Duration} {close : Instant} :
    c.closeTime timeframe = .ok close ↔ c.openTime.add? timeframe = some close := by
  unfold closeTime
  cases c.openTime.add? timeframe <;> simp

theorem closeTime_eq_error {timeframe : Duration} {e : Fault} (h : c.closeTime timeframe = .error e) :
    e = .calendarOverflow := by
  unfold closeTime at h
  cases ho : c.openTime.add? timeframe with
  | some close =>
    rw [ho] at h
    cases h
  | none =>
    rw [ho] at h
    cases h
    rfl

theorem Summarises.openTime_eq (h : c.Summarises (t :: ts)) : c.openTime = t.time := by
  obtain ⟨u, hu, -, ho, -⟩ := h.first
  cases hu
  exact ho

end Candle

namespace CandleAggregator

variable {timeframe : Duration} {a a' : CandleAggregator} {c : Candle} {t : Tick} {ts : List Tick}
  {closed : Option Candle} {candles : List Candle}

theorem push_new (timeframe : Duration) (t : Tick) :
    (new timeframe).push t = .ok (none, ⟨timeframe, some (.openAt t)⟩) := rfl

theorem push_some (timeframe : Duration) (c : Candle) (t : Tick) :
    (⟨timeframe, some c⟩ : CandleAggregator).push t = c.closeTime timeframe >>= fun close =>
      if t.time < close then liftM (c.absorb t) >>= fun c' => pure (none, ⟨timeframe, some c'⟩)
      else pure (some c, ⟨timeframe, some (.openAt t)⟩) := rfl

/-- A tick before the end of the open candle becomes part of it; any other tick closes it and opens the next. The
end of the candle has to be in the calendar for either. -/
theorem push_eq_ok_iff : (⟨timeframe, some c⟩ : CandleAggregator).push t = .ok (closed, a) ↔
    ∃ close, c.openTime.add? timeframe = some close ∧
      ((t.time < close ∧ ∃ c', c.absorb t = .ok c' ∧ none = closed ∧ ⟨timeframe, some c'⟩ = a) ∨
        (close ≤ t.time ∧ some c = closed ∧ ⟨timeframe, some (.openAt t)⟩ = a)) := by
  rw [push_some, bind_eq_ok_iff]
  refine exists_congr fun close => and_congr Candle.closeTime_eq_ok_iff ?_
  by_cases ht : t.time < close
  · have hn : ¬ close ≤ t.time := not_not_intro ht
    rw [if_pos ht, bind_eq_ok_iff, or_iff_left fun h => hn h.1, and_iff_right ht]
    simp only [checked_eq_ok_iff, pure_eq_ok_iff, Prod.mk.injEq]
  · rw [if_neg ht, or_iff_right fun h => ht h.1, and_iff_right (show close ≤ t.time from ht)]
    simp only [pure_eq_ok_iff, Prod.mk.injEq]

/-- Either the end of the open candle is not in the calendar, or its volume does not take the tick. -/
theorem push_eq_error {f : Fault} (h : (⟨timeframe, some c⟩ : CandleAggregator).push t = .error f) :
    f = .calendarOverflow ∨ ∃ e, c.absorb t = .error e := by
  rw [push_some] at h
  obtain h | ⟨close, -, h⟩ := bind_eq_error_iff.1 h
  · exact .inl (Candle.closeTime_eq_error h)
  · by_cases ht : t.time < close
    · rw [if_pos ht] at h
      obtain h | ⟨c', -, h⟩ := bind_eq_error_iff.1 h
      · obtain ⟨e, he, -⟩ := checked_eq_error_iff.1 h
        exact .inr ⟨e, he⟩
      · cases h
    · rw [if_neg ht] at h
      cases h

/-- Push ticks one after the other; the answer is the candles that they closed. -/
def pushAll (a : CandleAggregator) : List Tick → Faultable (List Candle × CandleAggregator)
  | [] => return ([], a)
  | t :: ts => do
    let (closed, a) ← a.push t
    let (candles, a) ← pushAll a ts
    return (closed.toList ++ candles, a)

theorem pushAll_cons_eq_ok_iff : a.pushAll (t :: ts) = .ok (candles, a') ↔ ∃ closed u rest,
    a.push t = .ok (closed, u) ∧ u.pushAll ts = .ok (rest, a') ∧ closed.toList ++ rest = candles := by
  simp only [pushAll, bind_eq_ok_iff, pure_eq_ok_iff, Prod.exists, Prod.mk.injEq]
  constructor
  · rintro ⟨closed, u, hp, rest, v, hr, rfl, rfl⟩
    exact ⟨closed, u, rest, hp, hr, rfl⟩
  · rintro ⟨closed, u, rest, hp, hr, rfl⟩
    exact ⟨closed, u, hp, rest, a', hr, rfl, rfl⟩

theorem pushAll_cons_eq_error_iff {f : Fault} : a.pushAll (t :: ts) = .error f ↔
    a.push t = .error f ∨ ∃ closed u, a.push t = .ok (closed, u) ∧ u.pushAll ts = .error f := by
  simp only [pushAll, bind_eq_error_iff, pure_ne_error, and_false, exists_false, or_false, Prod.exists]

/-- The candles of a timeframe over a list of ticks, the last one complete or not. -/
def aggregate (timeframe : Duration) (ts : List Tick) : Faultable (List Candle × CandleAggregator) := do
  let (closed, a) ← (new timeframe).pushAll ts
  let (last, a) := a.flush
  return (closed ++ last.toList, a)

end CandleAggregator

namespace Tick

/-- Ticks cut into stretches. None is empty; each tick comes before the end that the first tick of its stretch
sets, and the first tick of the next stretch does not. -/
structure GreedySplit (timeframe : Duration) (ts : List Tick) (stretches : List (List Tick)) : Prop where
  flatten : stretches.flatten = ts
  nonempty : ∀ s ∈ stretches, s ≠ []
  within : ∀ s ∈ stretches, ∀ f ∈ s.head?, ∀ close, f.time.add? timeframe = some close → ∀ t ∈ s, t.time < close
  apart : stretches.IsChain fun s next => ∃ f ∈ s.head?, ∃ t ∈ next.head?, ∃ close,
    f.time.add? timeframe = some close ∧ close ≤ t.time

/-- A tick at or after the end that a first tick sets. -/
def Ends (timeframe : Duration) (f t : Tick) : Prop := ∃ close, f.time.add? timeframe = some close ∧ close ≤ t.time

instance (timeframe : Duration) (f t : Tick) : Decidable (Ends timeframe f t) :=
  decidable_of_iff ((f.time.add? timeframe).any fun close => close ≤ t.time)
    (by simp [Ends, Option.any_eq_true])

/-- The stretches of the ticks to come after those of the open stretch, which `first` and `opened` make up. -/
def stretchesFrom (timeframe : Duration) (first : Tick) (opened : List Tick) : List Tick → List (List Tick)
  | [] => [first :: opened]
  | t :: ts =>
    if Ends timeframe first t then (first :: opened) :: stretchesFrom timeframe t [] ts
    else stretchesFrom timeframe first (opened ++ [t]) ts

def stretches (timeframe : Duration) : List Tick → List (List Tick)
  | [] => []
  | t :: ts => stretchesFrom timeframe t [] ts

variable {timeframe : Duration} {f t : Tick} {opened ts us : List Tick} {s s' : List Tick}
  {r r' : List (List Tick)}

theorem stretchesFrom_of_ends (h : Ends timeframe f t) :
    stretchesFrom timeframe f opened (t :: ts) = (f :: opened) :: stretchesFrom timeframe t [] ts := if_pos h

theorem stretchesFrom_of_not_ends (h : ¬ Ends timeframe f t) :
    stretchesFrom timeframe f opened (t :: ts) = stretchesFrom timeframe f (opened ++ [t]) ts := if_neg h

/-- The open stretch may only grow. -/
theorem exists_stretchesFrom_eq (timeframe : Duration) (f : Tick) (opened ts : List Tick) :
    ∃ more rest, stretchesFrom timeframe f opened ts = (f :: (opened ++ more)) :: rest := by
  induction ts generalizing opened with
  | nil => exact ⟨[], [], by rw [List.append_nil]; rfl⟩
  | cons t ts ih =>
    by_cases h : Ends timeframe f t
    · exact ⟨[], _, by rw [stretchesFrom_of_ends h, List.append_nil]⟩
    · obtain ⟨more, rest, hm⟩ := ih (opened ++ [t])
      refine ⟨t :: more, rest, ?_⟩
      rw [stretchesFrom_of_not_ends h, hm, List.append_assoc]
      rfl

namespace GreedySplit

/-- A stretch before the others, if its end does not come after their first tick. -/
theorem cons {n : List Tick} (h : GreedySplit timeframe us ((t :: n) :: r)) (he : Ends timeframe f t)
    (hw : ∀ close, f.time.add? timeframe = some close → ∀ t ∈ f :: opened, t.time < close) :
    GreedySplit timeframe (f :: opened ++ us) ((f :: opened) :: (t :: n) :: r) where
  flatten := by rw [List.flatten_cons, h.flatten]
  nonempty := by
    intro s hs
    obtain rfl | hs := List.mem_cons.1 hs
    · exact List.cons_ne_nil f opened
    · exact h.nonempty s hs
  within := by
    intro s hs g hg
    obtain rfl | hs := List.mem_cons.1 hs
    · cases hg
      exact hw
    · exact h.within s hs g hg
  apart := List.isChain_cons_cons.2 ⟨⟨f, rfl, t, rfl, he⟩, h.apart⟩

theorem tail (h : GreedySplit timeframe ts (s :: r)) : GreedySplit timeframe r.flatten r where
  flatten := rfl
  nonempty u hu := h.nonempty u (List.mem_cons_of_mem s hu)
  within u hu := h.within u (List.mem_cons_of_mem s hu)
  apart := h.apart.tail

/-- Stretches are as long as they can be: the tick after one is the first of the next, and comes too late. -/
theorem no_longer (h : GreedySplit timeframe ts (s :: r)) (h' : GreedySplit timeframe ts (s' :: r'))
    (hs : s' = s ++ us) : us = [] := by
  cases us with
  | nil => rfl
  | cons t us =>
    exfalso
    have hr : r.flatten = t :: us ++ r'.flatten := by
      have he := h.flatten.trans h'.flatten.symm
      rw [List.flatten_cons, List.flatten_cons, hs, List.append_assoc] at he
      exact List.append_cancel_left he
    cases r with
    | nil => cases hr
    | cons n r =>
      obtain ⟨f, hf, u, hu, close, hc, hle⟩ := (List.isChain_cons_cons.1 h.apart).1
      have hut : u = t := by
        have hh := congrArg List.head? hr
        rw [List.flatten_cons, List.head?_append, Option.mem_def.1 hu] at hh
        exact Option.some.inj hh
      have hf' : f ∈ s'.head? := by
        rw [hs, List.head?_append, Option.mem_def.1 hf]
        rfl
      have ht : t ∈ s' := hs ▸ List.mem_append_right s List.mem_cons_self
      exact (hut ▸ hle) (h'.within s' List.mem_cons_self f hf' close hc t ht)

theorem eq_nil (h : GreedySplit timeframe [] r) : r = [] := by
  cases r with
  | nil => rfl
  | cons s r => exact absurd (List.append_eq_nil_iff.1 h.flatten).1 (h.nonempty s List.mem_cons_self)

/-- There is one way at most to cut ticks into stretches. -/
theorem unique (h : GreedySplit timeframe ts r) (h' : GreedySplit timeframe ts r') : r = r' := by
  induction r generalizing ts r' with
  | nil =>
    cases h.flatten
    exact h'.eq_nil.symm
  | cons s r ih =>
    cases r' with
    | nil =>
      cases h'.flatten
      exact h.eq_nil
    | cons s' r' =>
      have he : s ++ r.flatten = s' ++ r'.flatten := h.flatten.trans h'.flatten.symm
      have hs : s = s' := by
        obtain ⟨us, hs, -⟩ | ⟨us, hs, -⟩ := List.append_eq_append_iff.1 he
        · rw [hs, no_longer h h' hs, List.append_nil]
        · rw [hs, no_longer h' h hs, List.append_nil]
      rw [hs] at he
      rw [hs, ih h.tail (List.append_cancel_left he ▸ h'.tail)]

end GreedySplit

theorem greedySplit_stretchesFrom (f : Tick) (opened : List Tick) (hd : 0 < timeframe.nanos)
    (h : ∀ close, f.time.add? timeframe = some close → ∀ t ∈ f :: opened, t.time < close) :
    GreedySplit timeframe (f :: opened ++ ts) (stretchesFrom timeframe f opened ts) := by
  induction ts generalizing f opened with
  | nil =>
    refine ⟨rfl, fun s hs => ?_, fun s hs g hg => ?_, List.isChain_singleton _⟩
    · rw [List.mem_singleton.1 hs]
      exact List.cons_ne_nil f opened
    · rw [List.mem_singleton.1 hs] at hg ⊢
      cases hg
      exact h
  | cons t ts ih =>
    by_cases he : Ends timeframe f t
    · rw [stretchesFrom_of_ends he]
      have ht := ih t [] fun close hc u hu => by
        rw [List.mem_singleton.1 hu]
        exact Instant.lt_of_add? hd hc
      obtain ⟨more, rest, hm⟩ := exists_stretchesFrom_eq timeframe t [] ts
      rw [hm] at ht ⊢
      exact ht.cons he h
    · rw [stretchesFrom_of_not_ends he]
      have ht := ih f (opened ++ [t]) fun close hc u hu => by
        obtain hu | hu := List.mem_append.1 (List.cons_append ▸ hu : u ∈ f :: opened ++ [t])
        · exact h close hc u hu
        · rw [List.mem_singleton.1 hu]
          exact not_not.1 fun hn => he ⟨close, hc, hn⟩
      rwa [List.cons_append, List.append_assoc] at ht

/-- The stretches are the one greedy split there is. -/
theorem greedySplit_iff (hd : 0 < timeframe.nanos) : GreedySplit timeframe ts r ↔ r = stretches timeframe ts := by
  have hs : GreedySplit timeframe ts (stretches timeframe ts) := by
    cases ts with
    | nil => exact ⟨rfl, nofun, nofun, List.IsChain.nil⟩
    | cons t ts =>
      refine greedySplit_stretchesFrom t [] hd fun close hc u hu => ?_
      rw [List.mem_singleton.1 hu]
      exact Instant.lt_of_add? hd hc
  exact ⟨fun h => h.unique hs, fun h => h ▸ hs⟩

/-- A stretch that a candle can be made of: the total of its sizes is in range, and so is the end that its first
tick sets if there are more. -/
def FitsCandle (timeframe : Duration) (s : List Tick) : Prop :=
  (∃ v, Decimal.sum (s.map Tick.size) = .ok v) ∧
    (s.length = 1 ∨ ∃ f ∈ s.head?, ∃ close, f.time.add? timeframe = some close)

end Tick

namespace CandleAggregator

open Tick

variable {timeframe : Duration} {a : CandleAggregator} {c : Candle} {f : Tick} {opened ts : List Tick}
  {candles : List Candle}

/-- From an open candle that tells the open stretch on, there is one candle for each stretch. -/
theorem summarises_of_pushAll (h : c.Summarises (f :: opened))
    (hp : pushAll ⟨timeframe, some c⟩ ts = .ok (candles, a)) :
    ∃ last, a.current = some last ∧
      List.Forall₂ Candle.Summarises (candles ++ [last]) (stretchesFrom timeframe f opened ts) := by
  induction ts generalizing c f opened candles with
  | nil =>
    cases hp
    exact ⟨c, rfl, .cons h .nil⟩
  | cons t ts ih =>
    obtain ⟨closed, u, rest, hpush, hrest, rfl⟩ := pushAll_cons_eq_ok_iff.1 hp
    obtain ⟨close, hc, ⟨ht, c', ha, rfl, rfl⟩ | ⟨hle, rfl, rfl⟩⟩ := push_eq_ok_iff.1 hpush
    · rw [h.openTime_eq] at hc
      have hn : ¬ Ends timeframe f t := by
        rintro ⟨close', hc', hle⟩
        cases hc.symm.trans hc'
        exact hle ht
      rw [stretchesFrom_of_not_ends hn]
      exact ih (h.absorb ha) hrest
    · rw [h.openTime_eq] at hc
      rw [stretchesFrom_of_ends ⟨close, hc, hle⟩]
      obtain ⟨last, hl, hs⟩ := ih (Candle.summarises_openAt t) hrest
      exact ⟨last, hl, .cons h hs⟩

theorem exists_pushAll_cons_iff {t : Tick} {closed : Option Candle} {u : CandleAggregator}
    (h : a.push t = .ok (closed, u)) : (∃ r, a.pushAll (t :: ts) = .ok r) ↔ ∃ r, u.pushAll ts = .ok r := by
  constructor
  · rintro ⟨r, hr⟩
    obtain ⟨_, _, rest, hp, hu, -⟩ := pushAll_cons_eq_ok_iff.1 hr
    cases h.symm.trans hp
    exact ⟨_, hu⟩
  · rintro ⟨r, hr⟩
    exact ⟨_, pushAll_cons_eq_ok_iff.2 ⟨closed, u, r.1, h, hr, rfl⟩⟩

/-- Pushing comes to its end just when a candle can be made of each stretch. -/
theorem exists_pushAll_iff (h : c.Summarises (f :: opened))
    (ho : opened = [] ∨ ∃ close, f.time.add? timeframe = some close) :
    (∃ r, pushAll ⟨timeframe, some c⟩ ts = .ok r) ↔
      ∀ s ∈ stretchesFrom timeframe f opened ts, FitsCandle timeframe s := by
  have hfit : FitsCandle timeframe (f :: opened) := by
    refine ⟨⟨c.volume, h.volume⟩, ho.imp (fun hn => ?_) fun hc => ⟨f, rfl, hc⟩⟩
    rw [hn]
    rfl
  induction ts generalizing c f opened with
  | nil => exact iff_of_true ⟨_, rfl⟩ fun s hs => List.mem_singleton.1 hs ▸ hfit
  | cons t ts ih =>
    by_cases he : Ends timeframe f t
    · obtain ⟨close, hc, hle⟩ := he
      have hp : push ⟨timeframe, some c⟩ t = .ok (some c, ⟨timeframe, some (.openAt t)⟩) :=
        push_eq_ok_iff.2 ⟨close, h.openTime_eq ▸ hc, .inr ⟨hle, rfl, rfl⟩⟩
      have hone : FitsCandle timeframe [t] := ⟨⟨t.size, Decimal.sum_single t.size⟩, .inl rfl⟩
      rw [stretchesFrom_of_ends ⟨close, hc, hle⟩, exists_pushAll_cons_iff hp, List.forall_mem_cons,
        and_iff_right hfit]
      exact ih (Candle.summarises_openAt t) (.inl rfl) hone
    · rw [stretchesFrom_of_not_ends he]
      by_cases hs : ∃ close c', f.time.add? timeframe = some close ∧ c.absorb t = .ok c'
      · obtain ⟨close, c', hc, ha⟩ := hs
        have ht : t.time < close := not_not.1 fun hn => he ⟨close, hc, hn⟩
        have hp : push ⟨timeframe, some c⟩ t = .ok (none, ⟨timeframe, some c'⟩) :=
          push_eq_ok_iff.2 ⟨close, h.openTime_eq ▸ hc, .inl ⟨ht, c', ha, rfl, rfl⟩⟩
        rw [exists_pushAll_cons_iff hp]
        exact ih (h.absorb ha) (.inr ⟨close, hc⟩) ⟨⟨c'.volume, (h.absorb ha).volume⟩, .inr ⟨f, rfl, close, hc⟩⟩
      -- either the end of the open stretch or its total is out of range, and both stay so
      · refine iff_of_false (fun ⟨r, hr⟩ => hs ?_) fun hall => hs ?_
        · obtain ⟨_, _, _, hp, -⟩ := pushAll_cons_eq_ok_iff.1 hr
          obtain ⟨close, hc, ⟨-, c', ha, -⟩ | ⟨hle, -⟩⟩ := push_eq_ok_iff.1 hp
          · exact ⟨close, c', h.openTime_eq ▸ hc, ha⟩
          · exact absurd ⟨close, h.openTime_eq ▸ hc, hle⟩ he
        · obtain ⟨more, rest, hm⟩ := exists_stretchesFrom_eq timeframe f (opened ++ [t]) ts
          obtain ⟨⟨v, hv⟩, hl⟩ := hall (f :: (opened ++ [t] ++ more)) (hm ▸ List.mem_cons_self)
          have hsum : Decimal.sum ((f :: opened).map Tick.size ++ [t.size] ++ more.map Tick.size) = .ok v := by
            rw [← hv]
            simp
          obtain ⟨w, hw⟩ := Decimal.sum_prefix hsum
          rw [Decimal.sum_concat, h.volume] at hw
          obtain hl | ⟨g, hg, close, hc⟩ := hl
          · simp at hl
          · cases hg
            exact ⟨close, _, hc, Candle.absorb_eq_ok_iff.2 ⟨w, hw, rfl⟩⟩

theorem aggregate_eq_ok_iff : aggregate timeframe ts = .ok (candles, a) ↔ ∃ closed u,
    (new timeframe).pushAll ts = .ok (closed, u) ∧ closed ++ u.current.toList = candles ∧
      { u with current := none } = a := by
  simp only [aggregate, flush, bind_eq_ok_iff, pure_eq_ok_iff, Prod.exists, Prod.mk.injEq]

theorem exists_aggregate_iff (timeframe : Duration) (ts : List Tick) :
    (∃ r, aggregate timeframe ts = .ok r) ↔ ∀ s ∈ stretches timeframe ts, FitsCandle timeframe s := by
  have hpush : (∃ r, aggregate timeframe ts = .ok r) ↔ ∃ r, (new timeframe).pushAll ts = .ok r := by
    constructor
    · rintro ⟨⟨candles, a⟩, h⟩
      obtain ⟨closed, u, hp, -⟩ := aggregate_eq_ok_iff.1 h
      exact ⟨_, hp⟩
    · rintro ⟨⟨closed, u⟩, hp⟩
      exact ⟨_, aggregate_eq_ok_iff.2 ⟨closed, u, hp, rfl, rfl⟩⟩
  rw [hpush]
  cases ts with
  | nil => exact iff_of_true ⟨_, rfl⟩ nofun
  | cons t ts =>
    rw [exists_pushAll_cons_iff (push_new timeframe t)]
    exact exists_pushAll_iff (Candle.summarises_openAt t) (.inl rfl)

/-- The candles of a list of ticks are those of its greedy split: there is one way to cut the list into stretches
such that each tick comes before the end that the first tick of its stretch sets, and the next stretch does not.
Each candle tells one stretch, in order, and nothing is left over. There are candles unless a total of sizes or
an end is out of range. -/
theorem aggregate_eq_greedySplit (hd : 0 < timeframe.nanos) (ts : List Tick) :
    ∃ stretches, (∀ r, GreedySplit timeframe ts r ↔ r = stretches) ∧
      (∀ candles a, aggregate timeframe ts = .ok (candles, a) →
        List.Forall₂ Candle.Summarises candles stretches ∧ a.current = none) ∧
      ((∃ r, aggregate timeframe ts = .ok r) ↔ ∀ s ∈ stretches, FitsCandle timeframe s) := by
  refine ⟨stretches timeframe ts, fun r => greedySplit_iff hd, fun candles a h => ?_, exists_aggregate_iff timeframe ts⟩
  obtain ⟨closed, u, hp, rfl, rfl⟩ := aggregate_eq_ok_iff.1 h
  refine ⟨?_, rfl⟩
  cases ts with
  | nil =>
    cases hp
    exact .nil
  | cons t ts =>
    obtain ⟨_, v, rest, hpush, hrest, rfl⟩ := pushAll_cons_eq_ok_iff.1 hp
    cases hpush
    obtain ⟨last, hl, hs⟩ := summarises_of_pushAll (Candle.summarises_openAt t) hrest
    rw [hl]
    exact hs

/-- Two ticks at one time and one at the end of their candle. -/
def ticksAtBoundary : List Tick :=
  [⟨"rain", .epoch, .lit 45 2, .lit 2 0⟩, ⟨"rain", .epoch, .lit 40 2, .lit 1 0⟩,
    ⟨"rain", .secondsIn 60, .lit 5 1, .lit 7 0⟩]

theorem aggregate_ticksAtBoundary : aggregate (.ofMillis 60000) ticksAtBoundary =
      .ok ([⟨"rain", .epoch, .lit 45 2, .lit 45 2, .lit 40 2, .lit 40 2, .lit 3 0⟩,
        ⟨"rain", .secondsIn 60, .lit 5 1, .lit 5 1, .lit 5 1, .lit 5 1, .lit 7 0⟩],
        .new (.ofMillis 60000)) ∧
    ∃ stretches, (∀ r, GreedySplit (.ofMillis 60000) ticksAtBoundary r ↔ r = stretches) ∧
      (∀ candles a, aggregate (.ofMillis 60000) ticksAtBoundary = .ok (candles, a) →
        List.Forall₂ Candle.Summarises candles stretches ∧ a.current = none) ∧
      ((∃ r, aggregate (.ofMillis 60000) ticksAtBoundary = .ok r) ↔
        ∀ s ∈ stretches, FitsCandle (.ofMillis 60000) s) :=
  ⟨by decide +kernel, aggregate_eq_greedySplit (by decide) ticksAtBoundary⟩

end CandleAggregator
end OutcomeMarket

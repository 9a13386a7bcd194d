import OutcomeMarket.Proofs.Book.Soundness
import OutcomeMarket.Proofs.Order.Atomicity

/-! Simulated liquidity is spent once. What an order fills comes out of the touch it trades against, within the rate
of participation, and is gone from the book afterwards; so orders one after the other use a level up, by what is
left of it each time, before they reach the next. -/
namespace OutcomeMarket

namespace Decimal

variable {a b d : Decimal}

/-- Two numbers that differ do so by a unit of the finest scale at least. -/
theorem unit_le_sub (h : b < a) : (1 : ℚ) / 10 ^ maxScale ≤ a.toRat - b.toRat := by
  have hp : (0 : ℚ) < 10 ^ maxScale := by positivity
  have hab : b.toRat * 10 ^ maxScale < a.toRat * 10 ^ maxScale := by
    rw [lt_iff_toRat] at h
    gcongr
  rw [div_le_iff₀ hp, sub_mul]
  rw [toRat_mul_pow a.scale_le, toRat_mul_pow b.scale_le] at *
  have hz : b.signed * 10 ^ (maxScale - b.scale) + 1 ≤ a.signed * 10 ^ (maxScale - a.scale) := by
    exact_mod_cast hab
  have hq : ((b.signed * 10 ^ (maxScale - b.scale) : ℤ) : ℚ) + 1 ≤ (a.signed * 10 ^ (maxScale - a.scale) : ℤ) := by
    exact_mod_cast hz
  linarith

/-- A difference is nothing only between equals. -/
theorem zero_lt_sub (h : b < a) (hd : a.sub b = .ok d) : zero < d := by
  have hunit : (lit 1 maxScale).toRat ≤ d.toRat := by
    refine (rounds_sub hd).le_of_ge ?_
    rw [toRat_lit, Nat.cast_one]
    exact unit_le_sub h
  rw [toRat_lit, Nat.cast_one] at hunit
  exact zero_lt_iff_toRat.2 (lt_of_lt_of_le (by positivity) hunit)

theorem sub_le_zero_iff (hd : a.sub b = .ok d) : d ≤ zero ↔ a ≤ b := by
  constructor
  · intro h
    by_contra hab
    exact not_le.2 (zero_lt_sub (not_le.1 hab) hd) h
  · intro h
    rw [le_iff_toRat] at h ⊢
    exact (rounds_sub hd).le_of_le (by rw [toRat_zero]; linarith)

end Decimal

namespace Level

/-- Some shares, and no more of a level's size than the rate of participation allows. -/
structure Within (rate size n : Decimal) : Prop where
  pos : .zero < n
  le_most : ∃ most, size.mul rate = .ok most ∧ n ≤ most ∧ most ≤ size

/-- The levels of a side before and after a fill out of the touch. The touch goes if the fill is all of it. If not it
keeps the difference, which is something. -/
inductive Taken (rate n : Decimal) : List Level → List Level → Prop where
  | whole {x xs} (hn : Within rate x.size n) (he : n.SameValue x.size) : Taken rate n (x :: xs) xs
  | part {x xs rest} (hn : Within rate x.size n) (he : ¬ n.SameValue x.size) (hr : x.size.sub n = .ok rest)
    (h0 : .zero < rest) : Taken rate n (x :: xs) ({ x with size := rest } :: xs)

/-- Fills one after the other. -/
inductive Drained (rate : Decimal) : List Level → List Decimal → List Level → Prop where
  | none (xs) : Drained rate xs [] xs
  | fill {n ns xs ys zs} (hn : Taken rate n xs ys) (hns : Drained rate ys ns zs) : Drained rate xs (n :: ns) zs

/-- Parts taken out of a size one after the other, something left each time. -/
inductive Reduced (rate : Decimal) : Decimal → List Decimal → Decimal → Prop where
  | none (size) : Reduced rate size [] size
  | part {n ns size rest last} (hn : Within rate size n) (hr : size.sub n = .ok rest) (h0 : .zero < rest)
    (hns : Reduced rate rest ns last) : Reduced rate size (n :: ns) last

/-- A level sold out: the last of the fills is all that those before it have left. -/
def SoldOut (rate : Decimal) (x : Level) (ns : List Decimal) : Prop :=
  ∃ parts n rest, ns = parts ++ [n] ∧ Reduced rate x.size parts rest ∧ Within rate rest n ∧ n.SameValue rest

/-- Each level up to some point was sold out by fills of its own, in their order; the one after it may be reduced by
the fills that remain; and the levels behind are as they were. -/
def SpentOnce (rate : Decimal) (xs : List Level) (ns : List Decimal) (ys : List Level) : Prop :=
  ∃ gone stay fills parts, xs = gone ++ stay ∧ ns = fills.flatten ++ parts ∧
    List.Forall₂ (SoldOut rate) gone fills ∧
    ((stay = [] ∧ parts = [] ∧ ys = []) ∨
      ∃ x behind rest, stay = x :: behind ∧ Reduced rate x.size parts rest ∧ ys = { x with size := rest } :: behind)

variable {rate n size rest : Decimal} {ns : List Decimal} {x : Level} {xs ys : List Level}

theorem Taken.pos (h : Taken rate n xs ys) : .zero < n := by
  cases h with
  | whole hn _ => exact hn.pos
  | part hn _ _ _ => exact hn.pos

theorem Taken.sound {s : BookSide} (h : Taken rate n xs ys) (hs : s.Sound xs) : s.Sound ys := by
  cases h with
  | whole _ _ => exact hs.tail
  | part _ _ _ h0 => exact hs.resize h0

theorem SoldOut.of_rest (hn : Within rate x.size n) (hr : x.size.sub n = .ok rest) (h0 : .zero < rest)
    (h : SoldOut rate { x with size := rest } ns) : SoldOut rate x (n :: ns) := by
  obtain ⟨parts, m, last, rfl, hparts, hm, he⟩ := h
  exact ⟨n :: parts, m, last, rfl, .part hn hr h0 hparts, hm, he⟩

/-- Fills that each come out of the touch spend no level twice. -/
theorem Drained.spentOnce (h : Drained rate xs ns ys) : SpentOnce rate xs ns ys := by
  induction h with
  | none xs =>
    refine ⟨[], xs, [], [], rfl, rfl, .nil, ?_⟩
    cases xs with
    | nil => exact .inl ⟨rfl, rfl, rfl⟩
    | cons x xs => exact .inr ⟨x, xs, x.size, rfl, .none x.size, rfl⟩
  | fill hn _ ih =>
    obtain ⟨gone, stay, fills, parts, hxs, hns, hgone, hstay⟩ := ih
    cases hn with
    | @whole x xs hn he =>
      refine ⟨x :: gone, stay, [_] :: fills, parts, by rw [hxs]; rfl, by rw [hns]; rfl, .cons ?_ hgone, hstay⟩
      exact ⟨[], _, x.size, rfl, .none x.size, hn, he⟩
    | @part x xs rest hn he hr h0 =>
      cases hgone with
      | nil =>
        obtain ⟨hs, -⟩ | ⟨y, behind, last, hs, hparts, hys⟩ := hstay
        · rw [hs] at hxs
          cases hxs
        · rw [hs] at hxs
          cases hxs
          refine ⟨[], x :: xs, [], _ :: parts, rfl, by rw [hns]; rfl, .nil, .inr ?_⟩
          exact ⟨x, xs, last, rfl, .part hn hr h0 hparts, hys⟩
      | @cons y fs gone fills hy hgone =>
        cases hxs
        have hx := hy.of_rest hn hr h0
        exact ⟨x :: gone, stay, (_ :: fs) :: fills, parts, rfl, by rw [hns]; rfl, .cons hx hgone, hstay⟩

end Level
namespace Order

open Level

/-- The book that an order leaves when it fills so many shares: all of it as it was if there are none; otherwise they
come out of the touch, and the other side is as it was. -/
inductive Leaves (o : Order) (rate : Decimal) (book : Book) : Decimal → Book → Prop where
  | nothing : Leaves o rate book .zero book
  | filled {n book'} (ht : Taken rate n (book.levels o.intent.touchSide) (book'.levels o.intent.touchSide))
    (hother : ∀ t, t ≠ o.intent.touchSide → book'.levels t = book.levels t) : Leaves o rate book n book'

variable {o : Order} {book book' : Book} {b b' : Broker} {n : Decimal} {locked : Bool}

/-- Consuming what is within the touch leaves the difference, or no touch if that is nothing. -/
theorem taken_of_consume {rate : Decimal} {s : BookSide} {x : Level} {xs : List Level} (hx : book.levels s = x :: xs)
    (hn : Within rate x.size n) (hle : n ≤ x.size) (hc : book.consume s n = .ok book') :
    Taken rate n (book.levels s) (book'.levels s) ∧ ∀ t, t ≠ s → book'.levels t = book.levels t := by
  unfold Book.consume at hc
  rw [hx] at hc
  obtain ⟨rest, hr, hc⟩ := bind_eq_ok_iff.1 hc
  rw [checked_eq_ok_iff] at hr
  obtain rfl := pure_eq_ok_iff.1 hc
  have hrest : rest ≤ .zero ↔ n.SameValue x.size := by
    rw [Decimal.sub_le_zero_iff hr, Decimal.sameValue_iff_le_le]
    exact (and_iff_right hle).symm
  refine ⟨?_, fun t ht => by rw [Book.levels_setLevels, if_neg ht]⟩
  rw [Book.levels_setLevels, if_pos rfl, hx]
  by_cases h0 : rest ≤ .zero
  · rw [if_pos h0]
    exact .whole hn (hrest.1 h0)
  · rw [if_neg h0]
    exact .part hn (mt hrest.2 h0) hr (Decimal.not_le.1 h0)

/-- A trade takes what it fills out of the touch that it read. -/
theorem leaves_of_trade (hv : b.config.Valid) (hb : book.Sound) (h : o.trade book b = .ok (n, book') b') :
    o.Leaves b.config.maxParticipationRate book n book' := by
  obtain ⟨u, hf⟩ := fill_of_trade h
  obtain ⟨rfl, rfl, -⟩ | ⟨h0, hc, -⟩ := trade_eq_ok h
  · exact .nothing
  obtain rfl | ⟨most, hmost, hn⟩ := fill_le_cap hf
  · exact absurd h0 (by decide)
  cases hx : book.levels o.intent.touchSide with
  | nil =>
    rw [(Book.best_of_empty hx).2] at hmost
    have hle := Decimal.le_trans hn (cap_le hv (Decimal.le_refl _) hmost)
    exact absurd h0 (Decimal.not_lt.2 hle)
  | cons x xs =>
    have hsize : book.bestSize o.intent.touchSide = x.size := Book.bestSize_of_head (by rw [hx]; rfl)
    rw [hsize] at hmost
    have hpos := (hb o.intent.touchSide).size_pos x (hx ▸ List.mem_cons_self)
    have hmle : most ≤ x.size := cap_le hv (Decimal.le_of_lt hpos) hmost
    obtain ⟨ht, hother⟩ := taken_of_consume hx ⟨h0, most, hmost, hn, hmle⟩ (Decimal.le_trans hn hmle) hc
    exact .filled ht hother

theorem leaves_of_fillNow {answer : Except ExecutionError Decimal} (hv : b.config.Valid) (hb : book.Sound)
    (h : o.fillNow locked book b = .ok (answer, book') b') :
    o.Leaves b.config.maxParticipationRate book (answer.toOption.getD .zero) book' := by
  cases locked with
  | true =>
    cases h
    exact .nothing
  | false =>
    obtain ⟨n, ht, rfl⟩ := fillNow_eq_ok_iff.1 h
    exact leaves_of_trade hv hb ht

theorem leaves_of_fillAfterDelay {outcome : OrderOutcome} (hv : b.config.Valid) (hb : book.Sound)
    (h : o.fillAfterDelay locked book b = .ok (outcome, book') b') :
    o.Leaves b.config.maxParticipationRate book outcome.shares book' := by
  cases ending_of_ok h with
  | busy => exact .nothing
  | traded hp ht ho =>
    have hl := leaves_of_trade hv hb ht
    rw [ho, answer]
    obtain ⟨rfl, -⟩ | ⟨h0, -⟩ := trade_eq_ok ht
    · exact hl
    · rw [if_pos h0]
      exact hl
  | refused => exact .nothing

theorem Leaves.sound {rate : Decimal} (h : o.Leaves rate book n book') (hb : book.Sound) : book'.Sound := by
  cases h with
  | nothing => exact hb
  | filled ht hother =>
    intro t
    by_cases hs : t = o.intent.touchSide
    · rw [hs]
      exact ht.sound (hb o.intent.touchSide)
    · rw [hother t hs]
      exact hb t

end Order
/-- One try at filling an order for some account, at once or after a delay, with the book locked or not. -/
structure Attempt where
  order : Order
  account : Broker
  delayed : Bool
  locked : Bool

namespace Attempt

/-- The shares that are filled, and the book that is left. A fault fills nothing and leaves the book. -/
def run (a : Attempt) (book : Book) : Decimal × Book :=
  if a.delayed then
    match a.order.fillAfterDelay a.locked book a.account with
    | .ok (outcome, left) _ => (outcome.shares, left)
    | .error _ _ => (.zero, book)
  else
    match a.order.fillNow a.locked book a.account with
    | .ok (answer, left) _ => (answer.toOption.getD .zero, left)
    | .error _ _ => (.zero, book)

/-- The fills against one side of a book that is tried one after the other, and the book that is left. -/
def runAll (side : BookSide) (book : Book) : List Attempt → List Decimal × Book
  | [] => ([], book)
  | a :: as =>
    let (n, left) := a.run book
    let (ns, last) := runAll side left as
    (if .zero < n ∧ a.order.intent.touchSide = side then n :: ns else ns, last)

theorem book_leaveBook (s : Session) (asset : String) (book : Book) :
    (s.leaveBook (.live asset) book).book asset = book := by
  unfold Session.leaveBook Session.setBook Session.book
  rw [TextMap.find?_insert_self]
  rfl

/-- A submission without latency is an attempt on its book. -/
theorem book_of_submit {s : Session} {o : Order} {asset : String} {locked : Bool} (hl : s.latency = 0) :
    (after (Session.submit o (.live asset) locked) s).book asset =
      (run ⟨o, s.broker, false, locked⟩ (s.book asset)).2 := by
  unfold after run
  rw [Session.submit_of_prompt hl]
  dsimp only [Session.venueBook]
  cases o.fillNow locked (s.book asset) s.broker with
  | ok r b => exact book_leaveBook _ asset r.2
  | error f b => rfl

/-- So is a delayed order when it is decided. -/
theorem book_of_fire {s : Session} {d : DelayedOrder} {asset : String} {held : Option String} {n : ℕ}
    (hd : d.venue = .live asset) : (s.fire held n d).book asset =
      (run ⟨d.order, s.broker, true, Session.isHeld held d.venue⟩ (s.book asset)).2 := by
  have hbook : s.venueBook d.venue = s.book asset := by rw [hd]; rfl
  unfold run
  dsimp only
  rw [← hbook]
  cases h : d.order.fillAfterDelay (Session.isHeld held d.venue) (s.venueBook d.venue) s.broker with
  | ok r b =>
    obtain ⟨outcome, left⟩ := r
    rw [Session.fire_of_ok h, hd]
    exact book_leaveBook _ asset left
  | error f b =>
    rw [Session.fire_of_error h]
    exact hbook.symm

variable {config : BrokerConfig} {a : Attempt} {as : List Attempt} {book : Book}

theorem leaves_of_run (hv : config.Valid) (ha : a.account.config = config) (hb : book.Sound) :
    a.order.Leaves config.maxParticipationRate book (a.run book).1 (a.run book).2 := by
  subst ha
  unfold run
  split
  · cases h : a.order.fillAfterDelay a.locked book a.account with
    | ok r b' => exact Order.leaves_of_fillAfterDelay hv hb h
    | error f b' => exact .nothing
  · cases h : a.order.fillNow a.locked book a.account with
    | ok r b' => exact Order.leaves_of_fillNow hv hb h
    | error f b' => exact .nothing

/-- Whatever accounts they are for, attempts with no update of the book in between drain its sides. -/
theorem drained_of_runAll (hv : config.Valid) (ha : ∀ a ∈ as, a.account.config = config) (hb : book.Sound)
    (side : BookSide) :
    Level.Drained config.maxParticipationRate (book.levels side) (runAll side book as).1
        ((runAll side book as).2.levels side) ∧ (runAll side book as).2.Sound := by
  induction as generalizing book with
  | nil => exact ⟨.none _, hb⟩
  | cons a as ih =>
    obtain ⟨hhead, htail⟩ := List.forall_mem_cons.1 ha
    have hl := leaves_of_run hv hhead hb
    obtain ⟨hd, hs⟩ := ih htail (hl.sound hb)
    refine ⟨?_, hs⟩
    unfold runAll
    dsimp only
    generalize a.run book = r at *
    obtain ⟨n, left⟩ := r
    cases hl with
    | nothing =>
      have hzero : ¬ (.zero < Decimal.zero ∧ a.order.intent.touchSide = side) := fun h => absurd h.1 (by decide)
      rw [if_neg hzero]
      exact hd
    | filled ht hother =>
      by_cases hside : a.order.intent.touchSide = side
      · rw [if_pos ⟨ht.pos, hside⟩]
        subst hside
        exact .fill ht hd
      · rw [if_neg fun h => hside h.2, ← hother side (Ne.symm hside)]
        exact hd

/-- Liquidity is spent once. An order that fills takes shares out of the touch alone, within the rate of participation,
and one that does not leaves the book as it was, on both paths. So over any attempts, with no update of the book in
between, each side is sold level by level, none twice, and no level without shares appears. -/
theorem spentOnce_of_runAll {asset : String} {us : List BookUpdate} (hv : config.validate = .ok ())
    (hb : (Book.empty asset).updateAll us = .ok book) :
    (∀ (o : Order) b locked answer book' b', b.config = config →
      o.fillNow locked book b = .ok (answer, book') b' →
        o.Leaves config.maxParticipationRate book (answer.toOption.getD .zero) book') ∧
    (∀ (o : Order) b locked outcome book' b', b.config = config →
      o.fillAfterDelay locked book b = .ok (outcome, book') b' →
        o.Leaves config.maxParticipationRate book outcome.shares book') ∧
    ∀ as : List Attempt, (∀ a ∈ as, a.account.config = config) → ∀ side,
      Level.SpentOnce config.maxParticipationRate (book.levels side) (runAll side book as).1
        ((runAll side book as).2.levels side) ∧
      ∀ x ∈ (runAll side book as).2.levels side, .zero < x.size := by
  have hvalid : config.Valid := BrokerConfig.validate_eq_ok_iff.1 hv
  have hsound : book.Sound := (Book.Sound.empty asset).updateAll hb
  refine ⟨?_, ?_, fun as ha side => ?_⟩
  · rintro o b locked answer book' b' rfl h
    exact Order.leaves_of_fillNow hvalid hsound h
  · rintro o b locked outcome book' b' rfl h
    exact Order.leaves_of_fillAfterDelay hvalid hsound h
  · obtain ⟨hd, hs⟩ := drained_of_runAll hvalid ha hsound side
    exact ⟨hd.spentOnce, fun x hx => (hs side).size_pos x hx⟩

/-- Orders for part of the best ask, for what is left of it, from a trader without shares, and for part of the next. -/
def fourAttempts : List Attempt :=
  [⟨⟨"rain", .buyYes, .lit 9 1, .lit 2 0⟩, .new .standard .oldestFirst, false, false⟩,
    ⟨⟨"rain", .buyYes, .lit 9 1, .lit 10 0⟩, .new .standard .oldestFirst, true, false⟩,
    ⟨⟨"rain", .sellNo, .lit 1 1, .zero⟩, .new .standard .oldestFirst, true, false⟩,
    ⟨⟨"rain", .buyYes, .lit 9 1, .lit 1 0⟩, .new .standard .oldestFirst, false, false⟩]

theorem spentOnce_of_fourAttempts : ∃ book, (Book.empty "rain").updateAll
      [.raw [⟨"0.3", "4"⟩] [⟨"0.50", "5"⟩, ⟨"0.4", "10"⟩]] = .ok book ∧
    (runAll .ask book fourAttempts).1.length = 3 ∧ ((runAll .ask book fourAttempts).2.levels .ask).length = 1 ∧
    (∀ (o : Order) b locked answer book' b', b.config = .standard →
      o.fillNow locked book b = .ok (answer, book') b' →
        o.Leaves BrokerConfig.standard.maxParticipationRate book (answer.toOption.getD .zero) book') ∧
    (∀ (o : Order) b locked outcome book' b', b.config = .standard →
      o.fillAfterDelay locked book b = .ok (outcome, book') b' →
        o.Leaves BrokerConfig.standard.maxParticipationRate book outcome.shares book') ∧
    ∀ as : List Attempt, (∀ a ∈ as, a.account.config = .standard) → ∀ side,
      Level.SpentOnce BrokerConfig.standard.maxParticipationRate (book.levels side) (runAll side book as).1
        ((runAll side book as).2.levels side) ∧
      ∀ x ∈ (runAll side book as).2.levels side, .zero < x.size := by
  have hsold : ∃ book ∈ ((Book.empty "rain").updateAll
      [.raw [⟨"0.3", "4"⟩] [⟨"0.50", "5"⟩, ⟨"0.4", "10"⟩]]).toOption,
      (runAll .ask book fourAttempts).1.length = 3 ∧ ((runAll .ask book fourAttempts).2.levels .ask).length = 1 := by
    decide +kernel
  obtain ⟨book, hb, hfills, hlevels⟩ := hsold
  cases hu : (Book.empty "rain").updateAll [.raw [⟨"0.3", "4"⟩] [⟨"0.50", "5"⟩, ⟨"0.4", "10"⟩]] with
  | error f =>
    rw [hu] at hb
    cases hb
  | ok book' =>
    rw [hu] at hb
    cases hb
    exact ⟨book, rfl, hfills, hlevels, spentOnce_of_runAll rfl hu⟩

end Attempt
end OutcomeMarket

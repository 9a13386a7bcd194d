import OutcomeMarket.Book.Basic
import OutcomeMarket.Proofs.Computation
import OutcomeMarket.Proofs.Decimal.Range

/-! Order books under updates. However a book is updated, each side is a list of positive sizes at prices from
nothing to a dollar, strictly ordered with the best price first, and the queries agree with it: the touch is the head
of a side, and the middle of the touch lies between its prices, even if they cross. -/
namespace OutcomeMarket

namespace BookSide

variable {s : BookSide} {p q r : Decimal} {l x y : Level} {xs : List Level}

theorem Better.trans (h : s.Better p q) (h' : s.Better q r) : s.Better p r := by
  cases s
  all_goals
    simp only [Better, Decimal.lt_iff_toRat] at *
    linarith

theorem Better.not_sameValue (h : s.Better p q) : ¬ p.SameValue q := by
  intro he
  rw [Decimal.sameValue_iff_toRat] at he
  cases s
  all_goals
    simp only [Better, Decimal.lt_iff_toRat] at h
    linarith

/-- Positive sizes at admissible prices, the best first. -/
structure Sound (s : BookSide) (xs : List Level) : Prop where
  sorted : xs.Pairwise fun x y => s.Better x.price y.price
  size_pos : ∀ x ∈ xs, .zero < x.size
  price_bounds : ∀ x ∈ xs, .zero ≤ x.price ∧ x.price ≤ .one

/-- A level of the side after an insertion is the new one, an old one, or an old one resized. -/
theorem mem_insertLevel (h : y ∈ s.insertLevel l xs) :
    y = l ∨ y ∈ xs ∨ ∃ x ∈ xs, y = { x with size := l.size } := by
  induction xs with
  | nil => exact .inl (List.mem_singleton.1 h)
  | cons x xs ih =>
    unfold insertLevel at h
    split at h
    · obtain rfl | h := List.mem_cons.1 h
      · exact .inl rfl
      · exact .inr (.inl h)
    · split at h
      · obtain rfl | h := List.mem_cons.1 h
        · exact .inr (.inl List.mem_cons_self)
        · obtain rfl | h | ⟨z, hz, rfl⟩ := ih h
          · exact .inl rfl
          · exact .inr (.inl (List.mem_cons_of_mem x h))
          · exact .inr (.inr ⟨z, List.mem_cons_of_mem x hz, rfl⟩)
      · obtain rfl | h := List.mem_cons.1 h
        · exact .inr (.inr ⟨x, List.mem_cons_self, rfl⟩)
        · exact .inr (.inl (List.mem_cons_of_mem x h))

theorem pairwise_insertLevel (h : xs.Pairwise fun x y => s.Better x.price y.price) :
    (s.insertLevel l xs).Pairwise fun x y => s.Better x.price y.price := by
  induction xs with
  | nil => exact List.pairwise_singleton _ l
  | cons x xs ih =>
    obtain ⟨hx, hxs⟩ := List.pairwise_cons.1 h
    unfold insertLevel
    split
    · rename_i hl
      refine List.pairwise_cons.2 ⟨fun y hy => ?_, h⟩
      obtain rfl | hy := List.mem_cons.1 hy
      · exact hl
      · exact hl.trans (hx y hy)
    · split
      · rename_i hl
        refine List.pairwise_cons.2 ⟨fun y hy => ?_, ih hxs⟩
        obtain rfl | hy | ⟨z, hz, rfl⟩ := mem_insertLevel hy
        · exact hl
        · exact hx y hy
        · exact hx z hz
      · exact List.pairwise_cons.2 ⟨hx, hxs⟩

namespace Sound

theorem nil (s : BookSide) : s.Sound [] := ⟨.nil, by simp, by simp⟩

theorem tail (h : s.Sound (x :: xs)) : s.Sound xs :=
  ⟨h.sorted.tail, fun y hy => h.size_pos y (List.mem_cons_of_mem x hy),
    fun y hy => h.price_bounds y (List.mem_cons_of_mem x hy)⟩

theorem filter (h : s.Sound xs) (f : Level → Bool) : s.Sound (xs.filter f) :=
  ⟨h.sorted.filter f, fun y hy => h.size_pos y (List.mem_of_mem_filter hy),
    fun y hy => h.price_bounds y (List.mem_of_mem_filter hy)⟩

theorem insert (h : s.Sound xs) (h0 : .zero < l.size) (hl : .zero ≤ l.price ∧ l.price ≤ .one) :
    s.Sound (s.insertLevel l xs) := by
  refine ⟨pairwise_insertLevel h.sorted, fun y hy => ?_, fun y hy => ?_⟩
  · obtain rfl | hy | ⟨x, _, rfl⟩ := mem_insertLevel hy
    · exact h0
    · exact h.size_pos y hy
    · exact h0
  · obtain rfl | hy | ⟨x, hx, rfl⟩ := mem_insertLevel hy
    · exact hl
    · exact h.price_bounds y hy
    · exact h.price_bounds x hx

/-- Writing a level stores no size of zero: that one removes the price. -/
theorem set (h : s.Sound xs) (hl : l.Admissible) : s.Sound (s.setLevel l xs) := by
  obtain ⟨hs, hp⟩ := hl
  unfold setLevel
  by_cases h0 : l.size.isZero = true
  · rw [if_pos h0]
    exact h.filter _
  · rw [if_neg h0]
    rw [Decimal.isZero_iff_toRat] at h0
    rw [Decimal.zero_le_iff_toRat] at hs
    exact h.insert (Decimal.zero_lt_iff_toRat.2 (lt_of_le_of_ne hs (Ne.symm h0))) hp

theorem resize (h : s.Sound (x :: xs)) {size : Decimal} (h0 : .zero < size) :
    s.Sound ({ x with size := size } :: xs) := by
  obtain ⟨hx, hxs⟩ := List.pairwise_cons.1 h.sorted
  refine ⟨List.pairwise_cons.2 ⟨hx, hxs⟩, fun y hy => ?_, fun y hy => ?_⟩
  · obtain rfl | hy := List.mem_cons.1 hy
    · exact h0
    · exact h.size_pos y (List.mem_cons_of_mem x hy)
  · obtain rfl | hy := List.mem_cons.1 hy
    · exact h.price_bounds x List.mem_cons_self
    · exact h.price_bounds y (List.mem_cons_of_mem x hy)

end Sound
end BookSide

/-- One change of a book, with all its arguments. -/
inductive BookUpdate where
  | delta (bids asks : List Level)
  | raw (bids asks : List RawLevel)
  | snapshot (bids asks : List RawLevel)
  | consume (side : BookSide) (shares : Decimal)

namespace Book

/-- The book after one change, unless it is refused. -/
def update (b : Book) : BookUpdate → Faultable Book
  | .delta bids asks =>
    match applyDelta bids asks b with
    | .ok () b' => .ok b'
    | .error f _ => .error f
  | .raw bids asks => .ok (b.applyRaw bids asks).1
  | .snapshot bids asks => .ok (b.applySnapshot bids asks).1
  | .consume side shares => b.consume side shares

/-- The book after a sequence of changes, if none of them is refused. -/
def updateAll (b : Book) (us : List BookUpdate) : Faultable Book := us.foldlM update b

/-- Both sides are sound. -/
def Sound (b : Book) : Prop := ∀ s : BookSide, s.Sound (b.levels s)

variable {b b' : Book} {s t : BookSide} {l : Level} {bids asks : List Level} {shares : Decimal}

@[simp] theorem levels_setLevels (b : Book) (s t : BookSide) (xs : List Level) :
    (b.setLevels s xs).levels t = if t = s then xs else b.levels t := by
  cases s <;> cases t <;> rfl

theorem checkLevels_eq_ok_iff {xs : List Level} {u : Unit} : checkLevels xs = .ok u ↔ ∀ l ∈ xs, l.Admissible := by
  induction xs with
  | nil => simp [checkLevels, pure_eq_ok_iff]
  | cons x xs ih =>
    change (ensure _ _ >>= fun _ => checkLevels xs) = .ok u ↔ _
    rw [ensure_bind_eq_ok_iff, ih, List.forall_mem_cons]

/-- The first level that is not admissible names the fault. -/
theorem checkLevels_eq_error {xs : List Level} (h : ∃ l ∈ xs, ¬ l.Admissible) :
    ∃ l ∈ xs, ¬ l.Admissible ∧ checkLevels xs = .error (.invalidLevel l.size l.price) := by
  induction xs with
  | nil => simp at h
  | cons x xs ih =>
    by_cases hx : x.Admissible
    · have hxs : ∃ l ∈ xs, ¬ l.Admissible := by
        obtain ⟨l, hl, hn⟩ := h
        obtain rfl | hl := List.mem_cons.1 hl
        · exact absurd hx hn
        · exact ⟨l, hl, hn⟩
      obtain ⟨l, hl, hn, he⟩ := ih hxs
      refine ⟨l, List.mem_cons_of_mem x hl, hn, ?_⟩
      change (ensure _ _ >>= fun _ => checkLevels xs) = _
      rw [(ensure_eq_ok_iff (u := ())).2 hx]
      exact he
    · exact ⟨x, List.mem_cons_self, hx, ensure_bind_of_not hx _ _⟩

theorem writeAll_eq (s : BookSide) (ls : List Level) (b : Book) :
    writeAll s ls b = .ok () (ls.foldl (write · s ·) b) := by
  induction ls generalizing b with
  | nil => rfl
  | cons l ls ih => exact ih (b.write s l)

/-- A typed change is made if all of its levels are admissible. -/
theorem applyDelta_eq_ok_iff {u : Unit} : applyDelta bids asks b = .ok u b' ↔
    (∀ l ∈ bids ++ asks, l.Admissible) ∧ asks.foldl (write · .ask ·) (bids.foldl (write · .bid ·) b) = b' := by
  unfold applyDelta
  rw [run_lift_bind_eq_ok_iff]
  simp only [checkLevels_eq_ok_iff, run_bind_of_ok (writeAll_eq ..), writeAll_eq, EStateM.Result.ok.injEq, true_and,
    exists_const]

/-- And if one is not, then nothing is written: the book is as it was. -/
theorem applyDelta_eq_error (h : ∃ l ∈ bids ++ asks, ¬ l.Admissible) :
    ∃ l ∈ bids ++ asks, ¬ l.Admissible ∧ applyDelta bids asks b = .error (.invalidLevel l.size l.price) b := by
  obtain ⟨l, hl, hn, he⟩ := checkLevels_eq_error h
  exact ⟨l, hl, hn, run_lift_bind_eq_error_iff.2 (.inl ⟨he, rfl⟩)⟩

theorem update_delta_eq_ok_iff :
    b.update (.delta bids asks) = .ok b' ↔ applyDelta bids asks b = .ok () b' := by
  unfold update
  dsimp only
  cases applyDelta bids asks b <;> simp

namespace Sound

theorem empty (asset : String) : (empty asset).Sound := by
  intro s
  cases s <;> exact .nil _

theorem setLevels (h : b.Sound) {xs : List Level} (hx : s.Sound xs) : (b.setLevels s xs).Sound := by
  intro t
  rw [levels_setLevels]
  split
  · subst t
    exact hx
  · exact h t

theorem write (h : b.Sound) (hl : l.Admissible) : (b.write s l).Sound := h.setLevels ((h s).set hl)

theorem foldl_write (h : b.Sound) {xs : List Level} (hx : ∀ l ∈ xs, l.Admissible) :
    (xs.foldl (Book.write · s ·) b).Sound := by
  induction xs generalizing b with
  | nil => exact h
  | cons x xs ih => exact ih (h.write (hx x List.mem_cons_self)) fun l hl => hx l (List.mem_cons_of_mem x hl)

theorem applyDelta (h : b.Sound) (hb : Book.applyDelta bids asks b = .ok () b') : b'.Sound := by
  obtain ⟨hl, rfl⟩ := applyDelta_eq_ok_iff.1 hb
  have hbids := h.foldl_write (s := .bid) fun l hm => hl l (List.mem_append_left asks hm)
  exact hbids.foldl_write fun l hm => hl l (List.mem_append_right bids hm)

/-- What is read from the wire is admissible, and the rest is skipped. -/
theorem foldl_writeRaw {st : Book × DeltaSummary} (h : st.1.Sound) (rs : List RawLevel) :
    (rs.foldl (writeRaw s) st).1.Sound := by
  induction rs generalizing st with
  | nil => exact h
  | cons r rs ih =>
    apply ih
    unfold writeRaw
    split
    · rename_i l hl
      exact h.write (RawLevel.admissible_of_parse hl)
    · exact h

theorem applyRaw (h : b.Sound) (bids asks : List RawLevel) : (b.applyRaw bids asks).1.Sound := by
  have hb : ((b, DeltaSummary.empty) : Book × DeltaSummary).1.Sound := h
  exact foldl_writeRaw (foldl_writeRaw hb bids) asks

theorem consume (h : b.Sound) (hb : b.consume s shares = .ok b') : b'.Sound := by
  have hs := h s
  unfold Book.consume at hb
  cases hx : b.levels s with
  | nil =>
    rw [hx] at hb
    cases hb
    exact h
  | cons x xs =>
    rw [hx] at hb hs
    obtain ⟨remaining, _, hb⟩ := bind_eq_ok_iff.1 hb
    cases hb
    apply h.setLevels
    by_cases h0 : remaining ≤ .zero
    · rw [if_pos h0]
      exact hs.tail
    · rw [if_neg h0]
      exact hs.resize (Decimal.not_le.1 h0)

theorem update (h : b.Sound) {u : BookUpdate} (hb : b.update u = .ok b') : b'.Sound := by
  cases u with
  | delta bids asks => exact h.applyDelta (update_delta_eq_ok_iff.1 hb)
  | raw bids asks =>
    cases hb
    exact h.applyRaw bids asks
  | snapshot bids asks =>
    cases hb
    exact (Sound.empty b.asset).applyRaw bids asks
  | consume side shares => exact h.consume hb

theorem updateAll (h : b.Sound) {us : List BookUpdate} (hb : b.updateAll us = .ok b') : b'.Sound := by
  induction us generalizing b with
  | nil =>
    cases hb
    exact h
  | cons u us ih =>
    obtain ⟨c, hc, hb⟩ := bind_eq_ok_iff.1 hb
    exact ih (h.update hc) hb

end Sound

section Touch

theorem bestPrice_of_head (h : (b.levels s).head? = some l) : b.bestPrice s = l.price := by simp [bestPrice, h]

theorem bestSize_of_head (h : (b.levels s).head? = some l) : b.bestSize s = l.size := by simp [bestSize, h]

theorem best_of_empty (h : b.levels s = []) : b.bestPrice s = s.emptyPrice ∧ b.bestSize s = .zero := by
  simp [bestPrice, bestSize, h]

/-- Only an empty side has no size at its touch. -/
theorem Sound.levels_eq_nil_iff (h : b.Sound) : b.levels s = [] ↔ (b.bestSize s).isZero = true := by
  cases hx : b.levels s with
  | nil => simp [bestSize, hx, Decimal.isZero]
  | cons x xs =>
    have hpos := (h s).size_pos x (hx ▸ List.mem_cons_self)
    rw [Decimal.zero_lt_iff_toRat] at hpos
    rw [bestSize_of_head (l := x) (by rw [hx]; rfl), Decimal.isZero_iff_toRat]
    simp [hpos.ne']

theorem Sound.bestPrice_bounds (h : b.Sound) (s : BookSide) : .zero ≤ b.bestPrice s ∧ b.bestPrice s ≤ .one := by
  cases hx : b.levels s with
  | nil =>
    rw [(best_of_empty hx).1]
    cases s <;> decide
  | cons x xs =>
    rw [bestPrice_of_head (l := x) (by rw [hx]; rfl)]
    exact (h s).price_bounds x (hx ▸ List.mem_cons_self)

theorem hasTouch_iff : b.hasTouch = true ↔ b.bids ≠ [] ∧ b.asks ≠ [] := by simp [hasTouch]

end Touch

end Book

namespace Decimal

variable {a b : Decimal}

/-- The rounded middle of two prices exists and lies between them. -/
theorem exists_middle (ha : zero ≤ a ∧ a ≤ one) (hb : zero ≤ b ∧ b ≤ one) : ∃ total m, a.add b = .ok total ∧
    total.div two = .ok m ∧ a.min b ≤ m ∧ m ≤ a.max b := by
  -- twice the smaller and twice the larger price can be written, so rounding the sum does not cross them
  obtain ⟨low, hlow⟩ := exists_double (le_min ha.1 hb.1) (le_trans (min_le_left a b) ha.2)
  obtain ⟨high, hhigh⟩ := exists_double (le_trans ha.1 (le_max_left a b)) (max_le ha.2 hb.2)
  rw [zero_le_iff_toRat, le_one_iff_toRat] at ha hb
  have hm : (2 : ℚ) ≤ maxMantissa := by norm_num
  obtain ⟨total, ht⟩ := exists_add (a := a) (b := b) (by
    rw [abs_of_nonneg (by linarith)]
    linarith)
  obtain ⟨m, hd⟩ := exists_div_two total
  have hq := rounds_div hd
  have htwo : two.toRat = 2 := by simp
  rw [htwo] at hq
  have hla := le_iff_toRat.1 (min_le_left a b)
  have hlb := le_iff_toRat.1 (min_le_right a b)
  have hua := le_iff_toRat.1 (le_max_left a b)
  have hub := le_iff_toRat.1 (le_max_right a b)
  have hlt := (rounds_add ht).le_of_ge (e := low) (by linarith)
  have hut := (rounds_add ht).le_of_le (e := high) (by linarith)
  exact ⟨total, m, ht, hd, le_iff_toRat.2 (hq.le_of_ge (by linarith)), le_iff_toRat.2 (hq.le_of_le (by linarith))⟩

end Decimal

namespace Book

variable {b : Book}

theorem Sound.mid (h : b.Sound) : ∃ m, b.mid = .ok m ∧ (m.isSome = true ↔ b.bids ≠ [] ∧ b.asks ≠ []) ∧
    ∀ x, m = some x → (b.bestPrice .bid).min (b.bestPrice .ask) ≤ x ∧
      x ≤ (b.bestPrice .bid).max (b.bestPrice .ask) ∧ .zero ≤ x ∧ x ≤ .one := by
  rw [← hasTouch_iff]
  unfold Book.mid
  by_cases ht : b.hasTouch = true
  · have hb := h.bestPrice_bounds .bid
    have ha := h.bestPrice_bounds .ask
    obtain ⟨total, m, hsum, hdiv, hlow, hhigh⟩ := Decimal.exists_middle hb ha
    rw [if_pos ht, hsum]
    refine ⟨some m, ?_, by simp [ht], ?_⟩
    · change (total.div .two >>= _) = _
      rw [hdiv]
      rfl
    · rintro _ ⟨⟩
      exact ⟨hlow, hhigh, Decimal.le_trans (Decimal.le_min hb.1 ha.1) hlow,
        Decimal.le_trans hhigh (Decimal.max_le hb.2 ha.2)⟩
  · rw [if_neg ht]
    exact ⟨none, rfl, by simp [ht], by simp⟩

theorem Sound.spread (h : b.Sound) :
    ∃ d, b.spread = .ok d ∧ (d.isSome = true ↔ b.bids ≠ [] ∧ b.asks ≠ []) := by
  rw [← hasTouch_iff]
  unfold Book.spread
  by_cases ht : b.hasTouch = true
  · obtain ⟨hb0, hb1⟩ := h.bestPrice_bounds .bid
    obtain ⟨ha0, ha1⟩ := h.bestPrice_bounds .ask
    rw [Decimal.zero_le_iff_toRat] at hb0 ha0
    rw [Decimal.le_one_iff_toRat] at hb1 ha1
    have hm : (1 : ℚ) ≤ Decimal.maxMantissa := by norm_num
    obtain ⟨d, hd⟩ := Decimal.exists_sub (a := b.bestPrice .ask) (b := b.bestPrice .bid) (by
      rw [abs_le]
      constructor <;> linarith)
    rw [if_pos ht, hd]
    exact ⟨some d, rfl, by simp [ht]⟩
  · rw [if_neg ht]
    exact ⟨none, rfl, by simp [ht]⟩

/-- A book that represents its sides properly, with queries that agree with them. -/
structure Consistent (b : Book) : Prop where
  level_bounds : ∀ s, ∀ l ∈ b.levels s, .zero < l.size ∧ .zero ≤ l.price ∧ l.price ≤ .one
  /-- No two levels of a side have the same price, in whatever form. -/
  distinct : ∀ s, (b.levels s).Pairwise fun x y => ¬ x.price.SameValue y.price
  bids_decrease : b.bids.Pairwise fun x y => y.price < x.price
  asks_increase : b.asks.Pairwise fun x y => x.price < y.price
  /-- The touch is the first level of a side. -/
  touch : ∀ s l, (b.levels s).head? = some l → b.bestPrice s = l.price ∧ b.bestSize s = l.size
  /-- An empty side has the worst price and no size, and no other side looks like that. -/
  empty_touch : ∀ s, b.levels s = [] → b.bestPrice s = s.emptyPrice ∧ b.bestSize s = .zero
  empty_iff : ∀ s, b.levels s = [] ↔
    (b.bestPrice s).SameValue s.emptyPrice ∧ (b.bestSize s).SameValue .zero
  mid : ∃ m, b.mid = .ok m ∧ (m.isSome = true ↔ b.bids ≠ [] ∧ b.asks ≠ []) ∧
    ∀ x, m = some x → (b.bestPrice .bid).min (b.bestPrice .ask) ≤ x ∧
      x ≤ (b.bestPrice .bid).max (b.bestPrice .ask) ∧ .zero ≤ x ∧ x ≤ .one
  spread : ∃ d, b.spread = .ok d ∧ (d.isSome = true ↔ b.bids ≠ [] ∧ b.asks ≠ [])
  /-- A typed change is made as a whole, or it faults and the book is the one that it was. -/
  delta : ∀ bids asks, ((∀ l ∈ bids ++ asks, l.Admissible) → ∃ b', applyDelta bids asks b = .ok () b') ∧
    ((∃ l ∈ bids ++ asks, ¬ l.Admissible) → ∃ l ∈ bids ++ asks, ¬ l.Admissible ∧
      applyDelta bids asks b = .error (.invalidLevel l.size l.price) b)

theorem Sound.consistent (h : b.Sound) : b.Consistent where
  level_bounds s l hl := ⟨(h s).size_pos l hl, (h s).price_bounds l hl⟩
  distinct s := (h s).sorted.imp fun hb => hb.not_sameValue
  bids_decrease := (h .bid).sorted
  asks_increase := (h .ask).sorted
  touch s l hl := ⟨bestPrice_of_head hl, bestSize_of_head hl⟩
  empty_touch s hs := best_of_empty hs
  empty_iff s := by
    rw [Decimal.sameValue_iff_toRat (b := .zero), Decimal.toRat_zero, ← Decimal.isZero_iff_toRat,
      ← h.levels_eq_nil_iff]
    refine ⟨fun hs => ⟨?_, hs⟩, And.right⟩
    rw [(best_of_empty hs).1]
    exact Decimal.sameValue_iff_toRat.2 rfl
  mid := h.mid
  spread := h.spread
  delta bids asks := ⟨fun hl => ⟨_, applyDelta_eq_ok_iff.2 ⟨hl, rfl⟩⟩, applyDelta_eq_error⟩

/-- Every sequence of updates leaves a consistent book. -/
theorem consistent_of_updateAll {asset : String} {us : List BookUpdate}
    (h : (empty asset).updateAll us = .ok b) : b.Consistent := ((Sound.empty asset).updateAll h).consistent

/-- A crossed book with one price in two forms, and a level that is taken off by half and then whole. -/
theorem consistent_of_crossed_updates : ∃ b, (empty "rain").updateAll
      [.delta [⟨.lit 60 2, .lit 5 0⟩, ⟨.lit 6 1, .lit 8 0⟩] [⟨.lit 4 1, .lit 3 0⟩, ⟨.lit 55 2, .lit 9 0⟩],
        .raw [⟨" 0.610", "7"⟩, ⟨"x", "1"⟩] [⟨"0.3", "-1"⟩], .consume .ask (.lit 15 1), .consume .ask (.lit 2 0)] =
      .ok b ∧ b.Consistent := by
  obtain ⟨b, hb⟩ := exists_of_isOk (x := (empty "rain").updateAll
    [.delta [⟨.lit 60 2, .lit 5 0⟩, ⟨.lit 6 1, .lit 8 0⟩] [⟨.lit 4 1, .lit 3 0⟩, ⟨.lit 55 2, .lit 9 0⟩],
      .raw [⟨" 0.610", "7"⟩, ⟨"x", "1"⟩] [⟨"0.3", "-1"⟩], .consume .ask (.lit 15 1), .consume .ask (.lit 2 0)])
    (by decide +kernel)
  exact ⟨b, hb, consistent_of_updateAll hb⟩

end Book
end OutcomeMarket

import OutcomeMarket.Proofs.Book.Soundness
import OutcomeMarket.Proofs.Decimal.Sum

/-! What can be asked of a book that is only written from the wire, where any text may come. No update is refused, and
the touch, its middle and its spread have answers in every such book. A depth has one as long as the sizes come to a
number; nothing bounds a size that is read, so two levels are enough to outgrow all of them. -/
namespace OutcomeMarket

/-- Updates that arrive as texts. -/
def BookUpdate.IsWire : BookUpdate → Prop
  | raw .. | snapshot .. => True
  | delta .. | consume .. => False

instance : DecidablePred BookUpdate.IsWire
  | .raw .. | .snapshot .. => isTrue trivial
  | .delta .. | .consume .. => isFalse id

namespace Book

variable {b : Book} {s : BookSide} {l : Level} {n : ℕ} {d : Decimal} {f : Decimal.ArithmeticFault} {u : BookUpdate}

/-- The sizes at the best n prices. -/
def topSizes (b : Book) (s : BookSide) (n : ℕ) : List Decimal := ((b.levels s).take n).map Level.size

theorem depth_succ_of_some (h : (b.levels s)[n]? = some l) :
    b.depth s (n + 1) = b.depth s n >>= fun v => v.add l.size := by
  unfold depth
  rw [List.take_add_one, h, Option.toList_some, List.map_append, List.map_singleton, Decimal.sum_concat]

theorem depth_succ_of_none (h : (b.levels s)[n]? = none) : b.depth s (n + 1) = b.depth s n := by
  unfold depth
  rw [List.take_add_one, h, Option.toList_none, List.append_nil]

/-- Where the size of a level does not fit on those before it. -/
def OverflowsAt (b : Book) (s : BookSide) (k : ℕ) : Prop :=
  ∃ l v, (b.levels s)[k]? = some l ∧ b.depth s k = .ok v ∧ ¬ Decimal.Fits (v.toRat + l.size.toRat)

theorem depth_eq_error_iff : b.depth s n = .error f ↔ f = .additionOverflow ∧ ∃ k < n, b.OverflowsAt s k := by
  induction n with
  | zero => simp [depth, Decimal.sum, pure_ne_error]
  | succ n ih =>
    rw [Nat.exists_lt_succ_right, and_or_left, ← ih]
    unfold OverflowsAt
    cases hl : (b.levels s)[n]? with
    | none => simp [depth_succ_of_none hl]
    | some l =>
      simp only [depth_succ_of_some hl, bind_eq_error_iff, Decimal.add_eq_error_iff, Option.some.injEq, exists_and_left,
        exists_eq_left']
      refine or_congr_right ⟨?_, ?_⟩
      · rintro ⟨v, hv, hf, hn⟩
        exact ⟨hf, v, hv, hn⟩
      · rintro ⟨hf, v, hv, hn⟩
        exact ⟨v, hv, hf, hn⟩

theorem Sound.nonneg_of_mem_topSizes (h : b.Sound) {x : Decimal} (hx : x ∈ b.topSizes s n) : .zero ≤ x := by
  obtain ⟨l, hl, rfl⟩ := List.mem_map.1 hx
  exact Decimal.le_of_lt ((h s).size_pos l (List.mem_of_mem_take hl))

theorem Sound.bestSize_nonneg (h : b.Sound) (s : BookSide) : .zero ≤ b.bestSize s := by
  cases hx : b.levels s with
  | nil =>
    rw [(best_of_empty hx).2]
    exact Decimal.le_refl _
  | cons x xs =>
    rw [bestSize_of_head (l := x) (by rw [hx]; rfl)]
    exact Decimal.le_of_lt ((h s).size_pos x (hx ▸ List.mem_cons_self))

/-- What a book answers. Of its queries only a depth can fail. -/
structure Answers (b : Book) : Prop where
  touch : ∀ s, .zero ≤ b.bestPrice s ∧ b.bestPrice s ≤ .one ∧ .zero ≤ b.bestSize s
  mid : ∃ m, b.mid = .ok m
  spread : ∃ d, b.spread = .ok d
  /-- It fails at a level whose size does not fit on those before it, and for no other reason -/
  depth_fails_iff : ∀ s n f, b.depth s n = .error f ↔ f = .additionOverflow ∧ ∃ k < n, b.OverflowsAt s k
  /-- It is the exact size but for half a share at each level -/
  depth_near : ∀ s n d, b.depth s n = .ok d →
    |d.toRat - Decimal.total (b.topSizes s n)| ≤ (b.topSizes s n).length / 2
  /-- There is one unless the exact size comes as near to the largest number -/
  exists_depth : ∀ s n, Decimal.total (b.topSizes s n) + (b.topSizes s n).length / 2 < Decimal.maxMantissa + 1 →
    ∃ d, b.depth s n = .ok d
  /-- And there is none if the exact size is that much above it -/
  total_lt : ∀ s n d, b.depth s n = .ok d →
    Decimal.total (b.topSizes s n) < Decimal.maxMantissa + (b.topSizes s n).length / 2

theorem Sound.answers (h : b.Sound) : b.Answers where
  touch s := ⟨(h.bestPrice_bounds s).1, (h.bestPrice_bounds s).2, h.bestSize_nonneg s⟩
  mid := by
    obtain ⟨m, hm, -⟩ := h.mid
    exact ⟨m, hm⟩
  spread := by
    obtain ⟨d, hd, -⟩ := h.spread
    exact ⟨d, hd⟩
  depth_fails_iff _ _ _ := depth_eq_error_iff
  depth_near _ _ _ hd := Decimal.abs_sum_sub_total_le hd
  exists_depth _ _ hsmall := Decimal.exists_sum (fun _ hx => h.nonneg_of_mem_topSizes hx) hsmall
  total_lt _ _ _ hd := Decimal.total_lt_of_sum hd

theorem exists_update (h : u.IsWire) (b : Book) : ∃ b', b.update u = .ok b' := by
  cases u with
  | raw bids asks => exact ⟨_, rfl⟩
  | snapshot bids asks => exact ⟨_, rfl⟩
  | delta bids asks => exact h.elim
  | consume side shares => exact h.elim

theorem exists_updateAll {us : List BookUpdate} (h : ∀ u ∈ us, u.IsWire) (b : Book) :
    ∃ b', b.updateAll us = .ok b' := by
  induction us generalizing b with
  | nil => exact ⟨b, rfl⟩
  | cons u us ih =>
    obtain ⟨hu, hus⟩ := List.forall_mem_cons.1 h
    obtain ⟨c, hc⟩ := exists_update hu b
    obtain ⟨b', hb'⟩ := ih hus c
    exact ⟨b', bind_eq_ok_iff.2 ⟨c, hc, hb'⟩⟩

/-- Whatever arrives, no update is refused, and the book answers. -/
theorem answers_of_wire {asset : String} {us : List BookUpdate} (h : ∀ u ∈ us, u.IsWire) :
    ∃ b, (empty asset).updateAll us = .ok b ∧ b.Answers := by
  obtain ⟨b, hb⟩ := exists_updateAll h (empty asset)
  exact ⟨b, hb, ((Sound.empty asset).updateAll hb).answers⟩

/-- Nearly as much as there can be in one level, and more in three others than would fit. -/
def fullBids : List BookUpdate :=
  [.raw [⟨"0.5", "100"⟩, ⟨"x", "y"⟩] [⟨"2", "1"⟩],
    .snapshot [⟨"0.4", "79228162514264337593543950333"⟩, ⟨"0.3", "0.6"⟩, ⟨"0.2", "0.6"⟩] [⟨"0.7", "-1"⟩],
    .raw [⟨" 0.1 ", "0.6"⟩] []]

theorem answers_of_fullBids : (∀ u ∈ fullBids, u.IsWire) ∧
    ∃ b, (empty "rain").updateAll fullBids = .ok b ∧ b.Answers :=
  ⟨by decide, answers_of_wire (by decide)⟩

/-- Four sizes come to a fifth less than the largest number, but each of the small ones is rounded up on the way. -/
theorem depth_fails_at_fullBids : ¬ ∀ us b, (∀ u ∈ us, u.IsWire) → (empty "rain").updateAll us = .ok b →
    ∀ s n, ∃ d, b.depth s n = .ok d := by
  intro hclaim
  have hfail : ((empty "rain").updateAll fullBids).toOption.map (·.depth .bid 4) =
      some (.error .additionOverflow) := by decide +kernel
  obtain ⟨b, hb, hdepth⟩ := Option.map_eq_some_iff.1 hfail
  obtain ⟨d, hd⟩ := hclaim fullBids b (by decide) (eq_ok_of_mem_toOption hb) .bid 4
  rw [hd] at hdepth
  cases hdepth

end Book
end OutcomeMarket

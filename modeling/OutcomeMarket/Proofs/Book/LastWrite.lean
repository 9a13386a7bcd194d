import OutcomeMarket.Proofs.Book.Soundness
import OutcomeMarket.Proofs.Decimal.Congruence

/-! What updates of a book mean. A side is a finite map from prices, taken by value, to sizes, and a list of entries
overwrites it entry by entry: what rests at a price in the end is decided by the entries for that price alone, and its
size by the last of them. An update from the wire is the typed update of the entries that can be read, and the
others are reported one by one. -/
namespace OutcomeMarket

namespace Level

/-- What rests at a price once a level has been written there: nothing if its size is zero, else its size at the
price in the form that it had. -/
def writtenOver (l : Level) (old : Option Level) : Option Level :=
  if l.size.isZero then none else some { old.getD l with size := l.size }

/-- The size that a level leaves at its price. -/
def resting (l : Level) : Option Decimal := if l.size.isZero then none else some l.size

theorem map_size_writtenOver (l : Level) (old : Option Level) : (l.writtenOver old).map size = l.resting := by
  unfold writtenOver resting
  split <;> rfl

end Level

/-- The levels at a price, in whatever form it is written. -/
def levelsAt (p : Decimal) (ls : List Level) : List Level := ls.filter fun l => l.price.SameValue p

/-- The level that rests at a price. -/
def levelAt (xs : List Level) (p : Decimal) : Option Level := xs.find? fun x => x.price.SameValue p

namespace BookSide

/-- Prices in strict order, the best first. -/
abbrev Ordered (s : BookSide) (xs : List Level) : Prop := xs.Pairwise fun x y => s.Better x.price y.price

/-- The side with levels written on it one after the other. -/
def writeAll (s : BookSide) (ls xs : List Level) : List Level := ls.foldl (fun xs l => s.setLevel l xs) xs

variable {s : BookSide} {p q : Decimal} {l x : Level} {xs ys ls ls' : List Level}

theorem sameValue_of_not_better (h : ¬ s.Better p q) (h' : ¬ s.Better q p) : p.SameValue q := by
  cases s with
  | bid => exact Decimal.sameValue_iff_le_le.2 ⟨Decimal.not_lt.1 h, Decimal.not_lt.1 h'⟩
  | ask => exact Decimal.sameValue_iff_le_le.2 ⟨Decimal.not_lt.1 h', Decimal.not_lt.1 h⟩

theorem levelAt_cons_of_sameValue (h : x.price.SameValue p) : levelAt (x :: xs) p = some x :=
  List.find?_cons_of_pos (by simpa using h)

theorem levelAt_cons_of_not_sameValue (h : ¬ x.price.SameValue p) : levelAt (x :: xs) p = levelAt xs p :=
  List.find?_cons_of_neg (by simpa using h)

/-- Nothing rests at a price that is better than all that rest. -/
theorem levelAt_of_better (h : ∀ x ∈ xs, s.Better q x.price) (hp : q.SameValue p) : levelAt xs p = none := by
  refine List.find?_eq_none.2 fun x hx he => ?_
  have he : x.price.SameValue p := by simpa using he
  exact (h x hx).not_sameValue (hp.trans he.symm)

theorem levelAt_insertLevel (h : s.Ordered xs) : levelAt (s.insertLevel l xs) p =
    if l.price.SameValue p then some { (levelAt xs p).getD l with size := l.size } else levelAt xs p := by
  induction xs with
  | nil =>
    unfold insertLevel
    split
    · rename_i hl
      exact levelAt_cons_of_sameValue hl
    · rename_i hl
      exact levelAt_cons_of_not_sameValue hl
  | cons x xs ih =>
    obtain ⟨hx, hxs⟩ := List.pairwise_cons.1 h
    unfold insertLevel
    by_cases hfirst : s.Better l.price x.price
    · rw [if_pos hfirst]
      by_cases hl : l.price.SameValue p
      · have hall : ∀ y ∈ x :: xs, s.Better l.price y.price :=
          List.forall_mem_cons.2 ⟨hfirst, fun y hy => hfirst.trans (hx y hy)⟩
        rw [if_pos hl, levelAt_cons_of_sameValue hl, levelAt_of_better hall hl]
        rfl
      · rw [if_neg hl, levelAt_cons_of_not_sameValue hl]
    · rw [if_neg hfirst]
      by_cases hlater : s.Better x.price l.price
      · rw [if_pos hlater]
        by_cases hxp : x.price.SameValue p
        · have hl : ¬ l.price.SameValue p := fun hl => hlater.not_sameValue (hxp.trans hl.symm)
          rw [if_neg hl, levelAt_cons_of_sameValue hxp, levelAt_cons_of_sameValue hxp]
        · rw [levelAt_cons_of_not_sameValue hxp, levelAt_cons_of_not_sameValue hxp]
          exact ih hxs
      · rw [if_neg hlater]
        -- the level is resized where it is, and keeps the form of its price
        have hsame : l.price.SameValue x.price := sameValue_of_not_better hfirst hlater
        by_cases hl : l.price.SameValue p
        · have hxp : x.price.SameValue p := hsame.symm.trans hl
          rw [if_pos hl, levelAt_cons_of_sameValue hxp]
          exact levelAt_cons_of_sameValue hxp
        · have hxp : ¬ x.price.SameValue p := fun hxp => hl (hsame.trans hxp)
          rw [if_neg hl, levelAt_cons_of_not_sameValue hxp]
          exact levelAt_cons_of_not_sameValue hxp

/-- Taking a price off a side takes off no other. -/
theorem levelAt_filter (q p : Decimal) (xs : List Level) :
    levelAt (xs.filter fun x => !decide (x.price.SameValue q)) p = if q.SameValue p then none else levelAt xs p := by
  unfold levelAt
  rw [List.find?_filter]
  split
  · rename_i hq
    refine List.find?_eq_none.2 fun x _ he => ?_
    simp only [Bool.not_eq_true', decide_eq_false_iff_not, decide_eq_true_eq] at he
    exact he.1 (he.2.trans hq.symm)
  · rename_i hq
    congr 1
    funext x
    have hne : x.price.SameValue p → ¬ x.price.SameValue q := fun hp hxq => hq (hxq.symm.trans hp)
    by_cases hp : x.price.SameValue p
    · simp [hp, hne hp]
    · simp [hp]

/-- Writing a level changes what rests at its price and nowhere else. -/
theorem levelAt_setLevel (h : s.Ordered xs) : levelAt (s.setLevel l xs) p =
    if l.price.SameValue p then l.writtenOver (levelAt xs p) else levelAt xs p := by
  unfold setLevel Level.writtenOver
  by_cases h0 : l.size.isZero = true
  · rw [if_pos h0, if_pos h0]
    exact levelAt_filter l.price p xs
  · rw [if_neg h0, if_neg h0]
    exact levelAt_insertLevel h

theorem Ordered.setLevel (h : s.Ordered xs) (l : Level) : s.Ordered (s.setLevel l xs) := by
  unfold BookSide.setLevel
  split
  · exact h.filter _
  · exact pairwise_insertLevel h

theorem Ordered.writeAll (h : s.Ordered xs) (ls : List Level) : s.Ordered (s.writeAll ls xs) := by
  induction ls generalizing xs with
  | nil => exact h
  | cons l ls ih => exact ih (h.setLevel l)

/-- What rests at a price after many writes is decided by the writes to that price, in their order. -/
theorem levelAt_writeAll (h : s.Ordered xs) (ls : List Level) (p : Decimal) : levelAt (s.writeAll ls xs) p =
    (levelsAt p ls).foldl (fun old l => l.writtenOver old) (levelAt xs p) := by
  induction ls generalizing xs with
  | nil => rfl
  | cons l ls ih =>
    have hrest := ih (h.setLevel l)
    rw [levelAt_setLevel h] at hrest
    by_cases hl : l.price.SameValue p
    · have hlevels : levelsAt p (l :: ls) = l :: levelsAt p ls := List.filter_cons_of_pos (by simpa using hl)
      rw [if_pos hl] at hrest
      rw [hlevels]
      exact hrest
    · have hlevels : levelsAt p (l :: ls) = levelsAt p ls := List.filter_cons_of_neg (by simpa using hl)
      rw [if_neg hl] at hrest
      rw [hlevels]
      exact hrest

/-- The last writer wins. -/
theorem map_size_levelAt_writeAll (h : s.Ordered xs) (ls : List Level) (p : Decimal) :
    (levelAt (s.writeAll ls xs) p).map Level.size =
      (levelsAt p ls).getLast?.elim ((levelAt xs p).map Level.size) Level.resting := by
  rw [levelAt_writeAll h]
  obtain hnone | ⟨before, l, hlast⟩ := (levelsAt p ls).eq_nil_or_concat
  · rw [hnone]
    rfl
  · rw [hlast, List.concat_eq_append, List.getLast?_concat, List.foldl_concat]
    exact Level.map_size_writtenOver l _

/-- Levels that rest on a side are found at their prices. -/
theorem mem_iff_levelAt (h : s.Ordered xs) : x ∈ xs ↔ levelAt xs x.price = some x := by
  refine ⟨fun hx => ?_, List.mem_of_find?_eq_some⟩
  induction xs with
  | nil => cases hx
  | cons y ys ih =>
    obtain ⟨hy, hys⟩ := List.pairwise_cons.1 h
    obtain rfl | hx := List.mem_cons.1 hx
    · exact levelAt_cons_of_sameValue (.refl _)
    · rw [levelAt_cons_of_not_sameValue (hy x hx).not_sameValue]
      exact ih hys hx

/-- A side is nothing but what rests at each price. -/
theorem eq_of_levelAt (hx : s.Ordered xs) (hy : s.Ordered ys) (h : ∀ p, levelAt xs p = levelAt ys p) : xs = ys := by
  have hnodup : ∀ {zs : List Level}, s.Ordered zs → zs.Nodup := fun hz =>
    hz.imp fun hb he => hb.not_sameValue (by rw [he]; exact .refl _)
  have hperm : xs.Perm ys := by
    refine (List.perm_ext_iff_of_nodup (hnodup hx) (hnodup hy)).2 fun x => ?_
    rw [mem_iff_levelAt hx, mem_iff_levelAt hy, h]
  exact hperm.eq_of_pairwise (fun _ _ _ _ hb hb' => ((hb.trans hb').not_sameValue (.refl _)).elim) hx hy

/-- Of levels at distinct prices at most one is at a given price, so that their order does not matter there. -/
theorem levelsAt_eq_of_perm (hd : ls.Pairwise fun l m => ¬ l.price.SameValue m.price) (h : ls'.Perm ls) (p : Decimal) :
    levelsAt p ls' = levelsAt p ls := by
  have hperm : (levelsAt p ls').Perm (levelsAt p ls) := h.filter _
  have hdistinct : (levelsAt p ls).Pairwise fun l m => ¬ l.price.SameValue m.price := hd.filter _
  have hat : ∀ l ∈ levelsAt p ls, l.price.SameValue p := fun l hl => by simpa using List.of_mem_filter hl
  match hls : levelsAt p ls with
  | [] =>
    rw [hls] at hperm
    exact hperm.eq_nil
  | [l] =>
    rw [hls] at hperm
    exact List.perm_singleton.1 hperm
  | l :: m :: _ =>
    rw [hls] at hdistinct hat
    have hl : l.price.SameValue p := hat l (by simp)
    have hm : m.price.SameValue p := hat m (by simp)
    exact absurd (hl.trans hm.symm) (List.rel_of_pairwise_cons hdistinct (by simp))

theorem writeAll_eq_of_perm (hx : s.Ordered xs) (hd : ls.Pairwise fun l m => ¬ l.price.SameValue m.price)
    (h : ls'.Perm ls) : s.writeAll ls' xs = s.writeAll ls xs := by
  refine eq_of_levelAt (hx.writeAll ls') (hx.writeAll ls) fun p => ?_
  rw [levelAt_writeAll hx, levelAt_writeAll hx, levelsAt_eq_of_perm hd h]

end BookSide

namespace RawLevel

/-- The levels that can be read, in their order. -/
def readable (rs : List RawLevel) : List Level := rs.filterMap fun r => r.parse.toOption

/-- The error about an entry that cannot be read, with both texts as they came. -/
def refusal? (r : RawLevel) : Option ExecutionError :=
  match r.parse with
  | .ok _ => none
  | .error p => some (.malformedEntry r.price r.size p.message)

/-- The errors about the entries that cannot be read, in their order. -/
def refusals (rs : List RawLevel) : List ExecutionError := rs.filterMap refusal?

/-- No two entries that can be read name one price. -/
def DistinctPrices (rs : List RawLevel) : Prop := (readable rs).Pairwise fun l m => ¬ l.price.SameValue m.price

/-- The same entries in another order, which is allowed only for distinct prices. -/
def Reorders (rs rs' : List RawLevel) : Prop := rs' = rs ∨ (DistinctPrices rs ∧ rs'.Perm rs)

variable {r : RawLevel} {rs rs' : List RawLevel} {l : Level} {problem : LevelProblem}

theorem readable_cons_of_ok (h : r.parse = .ok l) : readable (r :: rs) = l :: readable rs :=
  List.filterMap_cons_some (by rw [h]; rfl)

theorem readable_cons_of_error (h : r.parse = .error problem) : readable (r :: rs) = readable rs :=
  List.filterMap_cons_none (by rw [h]; rfl)

theorem refusals_cons_of_ok (h : r.parse = .ok l) : refusals (r :: rs) = refusals rs :=
  List.filterMap_cons_none (by rw [refusal?, h])

theorem refusals_cons_of_error (h : r.parse = .error problem) :
    refusals (r :: rs) = .malformedEntry r.price r.size problem.message :: refusals rs :=
  List.filterMap_cons_some (by rw [refusal?, h])

theorem admissible_of_mem_readable (h : l ∈ readable rs) : l.Admissible := by
  obtain ⟨r, -, hr⟩ := List.mem_filterMap.1 h
  exact admissible_of_parse (eq_ok_of_mem_toOption hr)

/-- Every entry is either read or refused. -/
theorem length_readable_add_refusals (rs : List RawLevel) :
    (readable rs).length + (refusals rs).length = rs.length := by
  induction rs with
  | nil => rfl
  | cons r rs ih =>
    cases hr : r.parse with
    | ok l =>
      rw [readable_cons_of_ok hr, refusals_cons_of_ok hr, List.length_cons, List.length_cons]
      omega
    | error problem =>
      rw [readable_cons_of_error hr, refusals_cons_of_error hr, List.length_cons, List.length_cons]
      omega

theorem writeAll_of_reorders {s : BookSide} {xs : List Level} (hx : s.Ordered xs) (h : Reorders rs rs') :
    s.writeAll (readable rs') xs = s.writeAll (readable rs) xs := by
  obtain rfl | ⟨hd, hp⟩ := h
  · rfl
  · exact BookSide.writeAll_eq_of_perm hx hd (hp.filterMap _)

end RawLevel

namespace Book

/-- Both sides are in strict order. -/
def Ordered (b : Book) : Prop := ∀ s : BookSide, s.Ordered (b.levels s)

/-- The size that rests at a price of a side, if any. -/
def sizeAt (b : Book) (s : BookSide) (p : Decimal) : Option Decimal := (levelAt (b.levels s) p).map Level.size

/-- What an update names for a side. -/
def entriesOf (bids asks : List RawLevel) : BookSide → List RawLevel
  | .bid => bids
  | .ask => asks

/-- How an update from the wire is read. -/
structure ReadsWire (b : Book) (bids asks : List RawLevel) : Prop where
  /-- It is the typed update of its readable entries, which is never refused. -/
  typed : applyDelta (RawLevel.readable bids) (RawLevel.readable asks) b = .ok () (b.applyRaw bids asks).1
  /-- The last readable entry for a price says what rests there; without one that stays as it was. -/
  last_wins : ∀ s p, (b.applyRaw bids asks).1.sizeAt s p =
    (levelsAt p (RawLevel.readable (entriesOf bids asks s))).getLast?.elim (b.sizeAt s p) Level.resting
  counted : (b.applyRaw bids asks).2.applied + (b.applyRaw bids asks).2.skipped.length = bids.length + asks.length
  reported : (b.applyRaw bids asks).2.skipped = RawLevel.refusals bids ++ RawLevel.refusals asks
  /-- A picture of the whole book is an update of an empty one: it forgets what was there. -/
  snapshot : b.applySnapshot bids asks = (empty b.asset).applyRaw bids asks
  snapshot_size : ∀ s p, (b.applySnapshot bids asks).1.sizeAt s p =
    (levelsAt p (RawLevel.readable (entriesOf bids asks s))).getLast?.bind Level.resting
  /-- Entries for distinct prices of a side may come in any order. -/
  reordered : ∀ bids' asks', RawLevel.Reorders bids bids' → RawLevel.Reorders asks asks' →
    (b.applyRaw bids' asks').1 = (b.applyRaw bids asks).1

variable {b : Book} {s t : BookSide} {bids asks : List RawLevel}

theorem Sound.ordered (h : b.Sound) : b.Ordered := fun s => (h s).sorted

theorem ordered_empty (asset : String) : (empty asset).Ordered := (Sound.empty asset).ordered

theorem setLevels_levels (b : Book) (s : BookSide) : b.setLevels s (b.levels s) = b := by cases s <;> rfl

theorem setLevels_setLevels (b : Book) (s : BookSide) (xs ys : List Level) :
    (b.setLevels s xs).setLevels s ys = b.setLevels s ys := by cases s <;> rfl

theorem foldl_write_eq (b : Book) (s : BookSide) (ls : List Level) :
    ls.foldl (write · s ·) b = b.setLevels s (s.writeAll ls (b.levels s)) := by
  induction ls generalizing b with
  | nil => exact (setLevels_levels b s).symm
  | cons l ls ih =>
    rw [List.foldl_cons, ih]
    unfold write
    rw [setLevels_setLevels, levels_setLevels, if_pos rfl]
    rfl

/-- Raw entries are written where they can be read, and reported where not. -/
theorem foldl_writeRaw (s : BookSide) (st : Book × DeltaSummary) (rs : List RawLevel) : rs.foldl (writeRaw s) st =
    ((RawLevel.readable rs).foldl (write · s ·) st.1,
      ⟨st.2.applied + (RawLevel.readable rs).length, st.2.skipped ++ RawLevel.refusals rs⟩) := by
  induction rs generalizing st with
  | nil => exact congrArg (fun ks => (st.1, DeltaSummary.mk st.2.applied ks)) (List.append_nil _).symm
  | cons r rs ih =>
    rw [List.foldl_cons, ih]
    unfold writeRaw
    cases hr : r.parse with
    | ok l =>
      rw [RawLevel.readable_cons_of_ok hr, RawLevel.refusals_cons_of_ok hr, List.length_cons, List.foldl_cons]
      simp only [Nat.add_assoc, Nat.add_comm 1]
    | error problem =>
      rw [RawLevel.readable_cons_of_error hr, RawLevel.refusals_cons_of_error hr]
      simp only [RawLevel.problem, List.append_assoc, List.singleton_append]

theorem applyRaw_eq (b : Book) (bids asks : List RawLevel) : b.applyRaw bids asks =
    ((RawLevel.readable asks).foldl (write · .ask ·) ((RawLevel.readable bids).foldl (write · .bid ·) b),
      ⟨(RawLevel.readable bids).length + (RawLevel.readable asks).length,
        RawLevel.refusals bids ++ RawLevel.refusals asks⟩) := by
  unfold applyRaw
  rw [foldl_writeRaw, foldl_writeRaw]
  simp only [DeltaSummary.empty, Nat.zero_add, List.nil_append]

/-- An update of one side and then of the other writes each side on its own. -/
theorem levels_applyRaw (b : Book) (bids asks : List RawLevel) (s : BookSide) :
    (b.applyRaw bids asks).1.levels s = s.writeAll (RawLevel.readable (entriesOf bids asks s)) (b.levels s) := by
  rw [applyRaw_eq, foldl_write_eq, foldl_write_eq]
  cases s <;> simp [entriesOf]

theorem sizeAt_applyRaw (h : b.Ordered) (bids asks : List RawLevel) (s : BookSide) (p : Decimal) :
    (b.applyRaw bids asks).1.sizeAt s p =
      (levelsAt p (RawLevel.readable (entriesOf bids asks s))).getLast?.elim (b.sizeAt s p) Level.resting := by
  unfold sizeAt
  rw [levels_applyRaw]
  exact BookSide.map_size_levelAt_writeAll (h s) _ p

theorem sizeAt_empty (asset : String) (s : BookSide) (p : Decimal) : (empty asset).sizeAt s p = none := by
  cases s <;> rfl

theorem asset_applyRaw (b : Book) (bids asks : List RawLevel) : (b.applyRaw bids asks).1.asset = b.asset := by
  rw [applyRaw_eq, foldl_write_eq, foldl_write_eq]
  rfl

theorem eq_of_levels {b b' : Book} (ha : b.asset = b'.asset) (h : ∀ s, b.levels s = b'.levels s) : b = b' := by
  obtain ⟨asset, xs, ys⟩ := b
  obtain ⟨asset', xs', ys'⟩ := b'
  have hbids : xs = xs' := h .bid
  have hasks : ys = ys' := h .ask
  obtain rfl : asset = asset' := ha
  rw [hbids, hasks]

theorem applyRaw_of_reorders (h : b.Ordered) {bids' asks' : List RawLevel} (hb : RawLevel.Reorders bids bids')
    (ha : RawLevel.Reorders asks asks') : (b.applyRaw bids' asks').1 = (b.applyRaw bids asks).1 := by
  refine eq_of_levels (by rw [asset_applyRaw, asset_applyRaw]) fun s => ?_
  rw [levels_applyRaw, levels_applyRaw]
  cases s with
  | bid => exact RawLevel.writeAll_of_reorders (h .bid) hb
  | ask => exact RawLevel.writeAll_of_reorders (h .ask) ha

/-- Whatever texts come in, a book in order takes them as the typed levels that they denote, and the last one for a
price counts. -/
theorem readsWire_of_ordered (h : b.Ordered) (bids asks : List RawLevel) : b.ReadsWire bids asks where
  typed := by
    rw [applyDelta_eq_ok_iff, applyRaw_eq]
    refine ⟨fun l hl => ?_, rfl⟩
    exact (List.mem_append.1 hl).elim RawLevel.admissible_of_mem_readable RawLevel.admissible_of_mem_readable
  last_wins := sizeAt_applyRaw h bids asks
  counted := by
    have hbids := RawLevel.length_readable_add_refusals bids
    have hasks := RawLevel.length_readable_add_refusals asks
    rw [applyRaw_eq]
    dsimp only
    rw [List.length_append]
    omega
  reported := by rw [applyRaw_eq]
  snapshot := rfl
  snapshot_size s p := by
    unfold applySnapshot
    rw [sizeAt_applyRaw (ordered_empty b.asset), sizeAt_empty]
    cases (levelsAt p (RawLevel.readable (entriesOf bids asks s))).getLast? <;> rfl
  reordered _ _ := applyRaw_of_reorders h

/-- One price in three forms, a deletion that is written over again, a text that is no price and a price that no
token has. -/
theorem readsWire_of_messyUpdate : ∃ b, (empty "rain").updateAll
      [.delta [⟨.lit 60 2, .lit 5 0⟩, ⟨.lit 55 2, .lit 8 0⟩] [⟨.lit 7 1, .lit 3 0⟩]] = .ok b ∧ b.Ordered ∧
    b.ReadsWire [⟨"0.6", "0"⟩, ⟨"abc", "10"⟩, ⟨" 0.600", "7"⟩, ⟨"0.55", "0.0"⟩] [⟨"1.5", "10"⟩, ⟨"0.70", "-1"⟩] ∧
    (b.applyRaw [⟨"0.6", "0"⟩, ⟨"abc", "10"⟩, ⟨" 0.600", "7"⟩, ⟨"0.55", "0.0"⟩]
      [⟨"1.5", "10"⟩, ⟨"0.70", "-1"⟩]).1 = ⟨"rain", [⟨.lit 600 3, .lit 7 0⟩], [⟨.lit 7 1, .lit 3 0⟩]⟩ := by
  obtain ⟨b, hb⟩ := exists_of_isOk (x := (empty "rain").updateAll
    [.delta [⟨.lit 60 2, .lit 5 0⟩, ⟨.lit 55 2, .lit 8 0⟩] [⟨.lit 7 1, .lit 3 0⟩]]) (by decide +kernel)
  have hordered : b.Ordered := ((Sound.empty "rain").updateAll hb).ordered
  refine ⟨b, hb, hordered, readsWire_of_ordered hordered _ _, ?_⟩
  have heq : b = ⟨"rain", [⟨.lit 60 2, .lit 5 0⟩, ⟨.lit 55 2, .lit 8 0⟩], [⟨.lit 7 1, .lit 3 0⟩]⟩ := by
    cases hb
    rfl
  rw [heq]
  decide +kernel

end Book
end OutcomeMarket

import Mathlib.Data.List.Sort
import Mathlib.Data.String.Basic
import OutcomeMarket.Proofs.Account.Closing

/-! The ledger on its own, whoever writes it. Each write puts one position in its place and leaves the others. So share
counts and entry prices do not go below zero, and the assets that count as open are those with shares. A flat position
has no entry price, unless the last thing written there was an entry price. -/
namespace OutcomeMarket

/-- One write of a ledger, with all its arguments. -/
inductive LedgerUpdate where
  | setShares (asset : String) (side : OutcomeSide) (shares : Decimal)
  | setAveragePrice (asset : String) (side : OutcomeSide) (price : Decimal)
  | buy (asset : String) (side : OutcomeSide) (filled spent : Decimal)
  | sell (asset : String) (side : OutcomeSide) (filled : Decimal)
  | close (asset : String) (side : OutcomeSide)

namespace LedgerUpdate

def asset : LedgerUpdate → String
  | setShares asset _ _ | setAveragePrice asset _ _ | buy asset _ _ _ | sell asset _ _ | close asset _ => asset

def side : LedgerUpdate → OutcomeSide
  | setShares _ side _ | setAveragePrice _ side _ | buy _ side _ _ | sell _ side _ | close _ side => side

/-- Whether an update writes this position. -/
def IsAt (u : LedgerUpdate) (asset : String) (side : OutcomeSide) : Prop := asset = u.asset ∧ side = u.side

instance (u : LedgerUpdate) (asset : String) (side : OutcomeSide) : Decidable (u.IsAt asset side) :=
  inferInstanceAs (Decidable (_ ∧ _))

/-- What the callers of a ledger keep to: entry prices are fair, something is bought and nothing earned by it, and no
negative number is sold. -/
def Proper : LedgerUpdate → Prop
  | setAveragePrice _ _ price => Broker.FairOutcome price
  | buy _ _ filled spent => .zero < filled ∧ .zero ≤ spent
  | sell _ _ filled => .zero ≤ filled
  | setShares .. | close .. => True

instance : (u : LedgerUpdate) → Decidable u.Proper
  | setAveragePrice _ _ price => inferInstanceAs (Decidable (Broker.FairOutcome price))
  | buy _ _ filled spent => inferInstanceAs (Decidable (Decimal.zero < filled ∧ Decimal.zero ≤ spent))
  | sell _ _ filled => inferInstanceAs (Decidable (Decimal.zero ≤ filled))
  | setShares .. | close .. => inferInstanceAs (Decidable True)

/-- The entry price that an update sets as such. -/
def price? : LedgerUpdate → Option Decimal
  | setAveragePrice _ _ price => some price
  | setShares .. | buy .. | sell .. | close .. => none

end LedgerUpdate

namespace Position

/-- What an update makes of the position that it writes. -/
inductive Rewritten (p : Position) : LedgerUpdate → Position → Prop where
  | counted {asset : String} {side : OutcomeSide} {shares : Decimal} (h : .zero ≤ shares) :
      Rewritten p (.setShares asset side shares) (p.withShares shares)
  | priced {asset : String} {side : OutcomeSide} {price : Decimal} :
      Rewritten p (.setAveragePrice asset side price) { p with averagePrice := price }
  | bought {asset : String} {side : OutcomeSide} {filled spent : Decimal} {q : Position}
      (h : p.bought filled spent = .ok q) : Rewritten p (.buy asset side filled spent) q
  | sold {asset : String} {side : OutcomeSide} {filled rest : Decimal} (h : p.shares.sub filled = .ok rest)
      (h0 : .zero ≤ rest) : Rewritten p (.sell asset side filled) (p.withShares rest)
  | closed {asset : String} {side : OutcomeSide} : Rewritten p (.close asset side) .flat

/-- A position of which `last` is the entry price that was set there, if that was the last thing written. -/
structure Kept (last : Option Decimal) (p : Position) : Prop where
  shares_nonneg : .zero ≤ p.shares
  price_nonneg : .zero ≤ p.averagePrice
  price_of_flat : last = none → p.isFlat = true → p.averagePrice = .zero
  price_of_set : ∀ price, last = some price → p.averagePrice = price

namespace Kept

variable {p q : Position} {last : Option Decimal} {u : LedgerUpdate} {shares filled spent : Decimal}

theorem flat : Kept none .flat := ⟨Decimal.le_refl _, Decimal.le_refl _, fun _ _ => rfl, nofun⟩

theorem withShares (h : p.Kept last) (h0 : .zero ≤ shares) : (p.withShares shares).Kept none := by
  unfold Position.withShares
  by_cases hs : shares.isZero = true
  · rw [if_pos hs]
    exact ⟨h0, Decimal.le_refl _, fun _ _ => rfl, nofun⟩
  · rw [if_neg hs]
    exact ⟨h0, h.price_nonneg, fun _ hf => absurd hf hs, nofun⟩

/-- Something was bought, so the position is not flat. -/
theorem bought (h : p.Kept last) (h0 : .zero ≤ spent) (hq : p.bought filled spent = .ok q) : q.Kept none := by
  have hpos := Broker.shares_pos_of_bought h.shares_nonneg hq
  obtain ⟨-, total, basis, cost, price, -, hb, hc, hp, rfl⟩ := Broker.bought_eq_ok_iff.1 hq
  have hbasis := Decimal.zero_le_mul h.shares_nonneg h.price_nonneg hb
  have hcost := Decimal.zero_le_add hbasis h0 hc
  exact ⟨Decimal.le_of_lt hpos, Decimal.zero_le_div hcost (Decimal.le_of_lt hpos) hp, fun _ hflat =>
    absurd hflat (not_isFlat_of_pos hpos), nofun⟩

/-- Every proper update keeps a position. -/
theorem rewritten (h : p.Kept last) (hu : u.Proper) (hr : p.Rewritten u q) : q.Kept u.price? := by
  cases hr with
  | counted h0 => exact h.withShares h0
  | priced =>
    refine ⟨h.shares_nonneg, hu.1, nofun, ?_⟩
    rintro _ ⟨⟩
    rfl
  | bought hq => exact h.bought hu.2 hq
  | sold _ h0 => exact h.withShares h0
  | closed => exact .flat

end Kept
end Position

namespace PositionPair

theorem not_isFlat_iff {p : PositionPair} : (!p.isFlat) = true ↔ ∃ side, (p.side side).isFlat = false := by
  unfold isFlat
  rw [Bool.not_eq_true', Bool.and_eq_false_iff]
  constructor
  · rintro (h | h)
    · exact ⟨.yes, h⟩
    · exact ⟨.no, h⟩
  · rintro ⟨_ | _, h⟩
    · exact .inl h
    · exact .inr h

end PositionPair

namespace Ledger

/-- The ledger after one update, unless it is refused. -/
def update (l : Ledger) : LedgerUpdate → Faultable Ledger
  | .setShares asset side shares => l.setShares asset side shares
  | .setAveragePrice asset side price => .ok (l.setAveragePrice asset side price)
  | .buy asset side filled spent => l.applyBuy asset side filled spent
  | .sell asset side filled => l.applySell asset side filled
  | .close asset side => .ok (l.close asset side)

/-- The ledger after a sequence of updates, if none of them is refused. -/
def updateAll (l : Ledger) (us : List LedgerUpdate) : Faultable Ledger := us.foldlM update l

/-- The entry price that was set at a position, if that was the last thing written there. -/
def lastSet (us : List LedgerUpdate) (asset : String) (side : OutcomeSide) : Option Decimal :=
  (us.filter fun u => u.IsAt asset side).getLast?.bind LedgerUpdate.price?

variable {l l' : Ledger} {u : LedgerUpdate} {us : List LedgerUpdate} {asset : String} {side : OutcomeSide}

/-- An update that is made rewrites one position, and the ledger has it in its place. -/
theorem rewritten_of_update (h : l.update u = .ok l') :
    ∃ p, (l.get u.asset u.side).Rewritten u p ∧ l.set u.asset u.side p = l' := by
  cases u with
  | setShares asset side shares =>
    obtain ⟨h0, h⟩ := ensure_bind_eq_ok_iff.1 h
    exact ⟨_, .counted h0, pure_eq_ok_iff.1 h⟩
  | setAveragePrice asset side price =>
    cases h
    exact ⟨_, .priced, rfl⟩
  | buy asset side filled spent =>
    obtain ⟨p, hp, hl⟩ := Broker.applyBuy_eq_ok_iff.1 h
    exact ⟨p, .bought hp, hl⟩
  | sell asset side filled =>
    obtain ⟨rest, hr, h0, hl⟩ := Broker.applySell_eq_ok_iff.1 h
    exact ⟨_, .sold hr h0, hl⟩
  | close asset side =>
    cases h
    exact ⟨_, .closed, rfl⟩

theorem get_update_of_not_isAt (h : l.update u = .ok l') (hn : ¬ u.IsAt asset side) :
    l'.get asset side = l.get asset side := by
  obtain ⟨p, -, rfl⟩ := rewritten_of_update h
  rw [get_set]
  exact if_neg hn

theorem lastSet_append (us : List LedgerUpdate) (u : LedgerUpdate) (asset : String) (side : OutcomeSide) :
    lastSet (us ++ [u]) asset side = if u.IsAt asset side then u.price? else lastSet us asset side := by
  unfold lastSet
  rw [List.filter_append]
  by_cases h : u.IsAt asset side
  · rw [if_pos h, List.filter_cons_of_pos (by simpa using h), List.filter_nil, List.getLast?_concat]
    rfl
  · rw [if_neg h, List.filter_cons_of_neg (by simpa using h), List.filter_nil, List.append_nil]

/-- Every proper update keeps all positions. -/
theorem kept_update (hl : ∀ asset side, (l.get asset side).Kept (lastSet us asset side)) (hu : u.Proper)
    (h : l.update u = .ok l') (asset : String) (side : OutcomeSide) :
    (l'.get asset side).Kept (lastSet (us ++ [u]) asset side) := by
  rw [lastSet_append]
  by_cases ha : u.IsAt asset side
  · rw [if_pos ha]
    obtain ⟨rfl, rfl⟩ := ha
    obtain ⟨p, hp, rfl⟩ := rewritten_of_update h
    rw [get_set_self]
    exact (hl _ _).rewritten hu hp
  · rw [if_neg ha, get_update_of_not_isAt h ha]
    exact hl asset side

theorem kept_updateAll (hu : ∀ u ∈ us, u.Proper) (h : empty.updateAll us = .ok l) (asset : String)
    (side : OutcomeSide) : (l.get asset side).Kept (lastSet us asset side) := by
  induction us using List.reverseRecOn generalizing l asset side with
  | nil =>
    cases h
    cases side <;> exact .flat
  | append_singleton us u ih =>
    unfold updateAll at h
    rw [List.foldlM_append] at h
    obtain ⟨m, hm, h⟩ := bind_eq_ok_iff.1 h
    obtain ⟨l', hl', h⟩ := bind_eq_ok_iff.1 h
    cases h
    have hkept := fun asset side => ih (fun u hm => hu u (List.mem_append_left _ hm)) hm asset side
    exact kept_update hkept (hu u (List.mem_append_right us List.mem_cons_self)) hl' asset side

/-- Sorted without repetition, as no asset has two entries. -/
theorem openAssets_increase (l : Ledger) : l.openAssets.Pairwise (· < ·) := by
  have hsorted : l.openAssets.Pairwise (· ≤ ·) := List.pairwise_mergeSort' (· ≤ ·) _
  have hkeys : ((l.pairs.entries.filter fun e => !e.2.isFlat).map Prod.fst).Nodup :=
    l.pairs.nodup.sublist (List.filter_sublist.map Prod.fst)
  have hnodup : l.openAssets.Nodup := (List.mergeSort_perm _ _).nodup_iff.2 hkeys
  exact (hsorted.and hnodup).imp fun h => lt_of_le_of_ne h.1 h.2

theorem mem_entries_of_not_isFlat (h : (l.get asset side).isFlat = false) :
    (asset, l.pair asset) ∈ l.pairs.entries := by
  unfold get pair TextMap.find? at *
  cases hp : l.pairs.entries.lookup asset with
  | none =>
    rw [hp] at h
    cases side <;> cases h
  | some pair =>
    exact TextMap.mem_of_lookup hp

theorem mem_openAssets_iff : asset ∈ l.openAssets ↔ ∃ side, (l.get asset side).isFlat = false := by
  unfold openAssets
  rw [List.mem_mergeSort, List.mem_map]
  constructor
  · rintro ⟨e, he, rfl⟩
    obtain ⟨he, hopen⟩ := List.mem_filter.1 he
    rw [← pair_of_mem he] at hopen
    exact PositionPair.not_isFlat_iff.1 hopen
  · rintro ⟨side, h⟩
    have hopen := PositionPair.not_isFlat_iff.2 ⟨side, h⟩
    exact ⟨(asset, l.pair asset), List.mem_filter.2 ⟨mem_entries_of_not_isFlat h, hopen⟩, rfl⟩

/-- How a ledger stands after these updates. -/
structure Kept (us : List LedgerUpdate) (l : Ledger) : Prop where
  shares_nonneg : ∀ asset side, .zero ≤ (l.get asset side).shares
  price_nonneg : ∀ asset side, .zero ≤ (l.get asset side).averagePrice
  /-- A flat position has no entry price, unless the last thing written there set one -/
  price_of_flat : ∀ asset side, lastSet us asset side = none → (l.get asset side).isFlat = true →
    (l.get asset side).averagePrice = .zero
  /-- An entry price that was the last thing written stands as it was written, whether there are shares or not -/
  price_of_set : ∀ asset side price, lastSet us asset side = some price → (l.get asset side).averagePrice = price
  open_increase : l.openAssets.Pairwise (· < ·)
  mem_open_iff : ∀ asset, asset ∈ l.openAssets ↔ ∃ side, (l.get asset side).isFlat = false
  /-- The next update, whatever it is, leaves every position but its own -/
  frame : ∀ u l', l.update u = .ok l' → ∀ asset side, ¬ u.IsAt asset side → l'.get asset side = l.get asset side

/-- After every sequence of proper updates a ledger is kept as it should be, but for entry prices that were set where
there are no shares. -/
theorem kept_of_updateAll (hu : ∀ u ∈ us, u.Proper) (h : empty.updateAll us = .ok l) : l.Kept us where
  shares_nonneg asset side := (kept_updateAll hu h asset side).shares_nonneg
  price_nonneg asset side := (kept_updateAll hu h asset side).price_nonneg
  price_of_flat asset side := (kept_updateAll hu h asset side).price_of_flat
  price_of_set asset side := (kept_updateAll hu h asset side).price_of_set
  open_increase := l.openAssets_increase
  mem_open_iff _ := mem_openAssets_iff
  frame _ _ hl _ _ hn := get_update_of_not_isAt hl hn

/-- Both sides bought and sold off, one in two parts; a count and a price set by hand; a side closed. -/
def mixedUpdates : List LedgerUpdate :=
  [.buy "snow" .no (.lit 3 0) (.lit 2 0), .setShares "rain" .yes (.lit 50 1), .setAveragePrice "rain" .yes (.lit 7 1),
    .sell "rain" .yes (.lit 2 0), .buy "rain" .no (.lit 1 0) (.lit 6 1), .sell "rain" .yes (.lit 3 0),
    .buy "hail" .yes (.lit 4 0) .one, .close "hail" .yes, .sell "snow" .no .zero]

theorem kept_of_mixedUpdates : (∀ u ∈ mixedUpdates, u.Proper) ∧ ∃ l, empty.updateAll mixedUpdates = .ok l ∧
    l.get "rain" .yes = ⟨.lit 0 1, .zero⟩ ∧ l.Kept mixedUpdates := by
  have hu : ∀ u ∈ mixedUpdates, u.Proper := by decide
  have hok : (empty.updateAll mixedUpdates).toOption.map (·.get "rain" .yes) = some ⟨.lit 0 1, .zero⟩ := by
    decide +kernel
  obtain ⟨l, hl, hrain⟩ := Option.map_eq_some_iff.1 hok
  have h := eq_ok_of_mem_toOption hl
  exact ⟨hu, l, h, hrain, kept_of_updateAll hu h⟩

/-- A fair entry price that is set before anything was bought stays at a position without shares. -/
theorem priced_while_flat : ¬ ∀ us l, (∀ u ∈ us, u.Proper) → empty.updateAll us = .ok l → ∀ asset side,
    (l.get asset side).isFlat = true → (l.get asset side).averagePrice.SameValue .zero := by
  intro hclaim
  have hnot := hclaim [.setAveragePrice "rain" .yes (.lit 5 1)] (empty.setAveragePrice "rain" .yes (.lit 5 1))
    (by decide) rfl "rain" .yes rfl
  revert hnot
  decide

end Ledger
end OutcomeMarket

import OutcomeMarket.TextMap
import OutcomeMarket.Fault

/-! The position ledger: for each asset the YES and the NO holding, with share count and
volume-weighted entry price. The two sides are never netted. A flat position has entry price zero. -/
namespace OutcomeMarket

/-- A holding on one side of one asset. -/
structure Position where
  shares : Decimal
  averagePrice : Decimal
  deriving DecidableEq, Repr

namespace Position

def flat : Position := ⟨.zero, .zero⟩

instance : Inhabited Position := ⟨flat⟩

def isFlat (p : Position) : Bool := p.shares.isZero

/-- What the shares cost. -/
def costBasis (p : Position) : Decimal.Checked Decimal := p.shares.mul p.averagePrice

/-- The position with another share count. Without shares there is no entry price. -/
def withShares (p : Position) (shares : Decimal) : Position :=
  ⟨shares, if shares.isZero then .zero else p.averagePrice⟩

/-- The position after `filled` more shares for `spent` dollars: the entry price is the total cost
over the total count. -/
def bought (p : Position) (filled spent : Decimal) : Faultable Position := do
  ensure (.zero < filled) (.emptyBuy filled)
  let shares ← p.shares.add filled
  let basis ← p.costBasis
  let cost ← basis.add spent
  let price ← cost.div shares
  return ⟨shares, price⟩

end Position

/-- The YES and NO holdings of one asset. -/
structure PositionPair where
  yes : Position
  no : Position
  deriving DecidableEq, Repr

namespace PositionPair

def flat : PositionPair := ⟨.flat, .flat⟩

instance : Inhabited PositionPair := ⟨flat⟩

def side (p : PositionPair) : OutcomeSide → Position
  | .yes => p.yes
  | .no => p.no

def setSide (p : PositionPair) (s : OutcomeSide) (q : Position) : PositionPair :=
  match s with
  | .yes => { p with yes := q }
  | .no => { p with no := q }

def isFlat (p : PositionPair) : Bool := p.yes.isFlat && p.no.isFlat

@[simp] theorem side_setSide_self (p : PositionPair) (s : OutcomeSide) (q : Position) :
    (p.setSide s q).side s = q := by cases s <;> rfl

theorem side_setSide_of_ne (p : PositionPair) {s t : OutcomeSide} (h : t ≠ s) (q : Position) :
    (p.setSide s q).side t = p.side t := by cases s <;> cases t <;> simp_all [setSide, side]

end PositionPair

/-- The holdings of an account. -/
structure Ledger where
  pairs : TextMap PositionPair

namespace Ledger

def empty : Ledger := ⟨.empty⟩

instance : Inhabited Ledger := ⟨empty⟩

def pair (l : Ledger) (asset : String) : PositionPair := (l.pairs.find? asset).getD .flat

/-- The holding on one side; flat if it was never traded. -/
def get (l : Ledger) (asset : String) (side : OutcomeSide) : Position := (l.pair asset).side side

def set (l : Ledger) (asset : String) (side : OutcomeSide) (p : Position) : Ledger :=
  ⟨l.pairs.insert asset ((l.pair asset).setSide side p)⟩

theorem pair_set (l : Ledger) (asset other : String) (side : OutcomeSide) (p : Position) :
    (l.set asset side p).pair other =
      if other = asset then (l.pair asset).setSide side p else l.pair other := by
  unfold set pair
  rw [TextMap.find?_insert]
  split <;> rfl

@[simp] theorem get_set_self (l : Ledger) (asset : String) (side : OutcomeSide) (p : Position) :
    (l.set asset side p).get asset side = p := by simp [get, pair_set]

/-- A write leaves every other position as it is. -/
theorem get_set_of_ne (l : Ledger) {asset other : String} {side t : OutcomeSide}
    (h : other ≠ asset ∨ t ≠ side) (p : Position) :
    (l.set asset side p).get other t = l.get other t := by
  unfold get
  rw [pair_set]
  split
  · subst other
    exact PositionPair.side_setSide_of_ne _ (h.resolve_left fun h => h rfl) p
  · rfl

/-- Overwrite a share count. -/
def setShares (l : Ledger) (asset : String) (side : OutcomeSide) (shares : Decimal) :
    Faultable Ledger := do
  ensure (.zero ≤ shares) (.negativePosition asset side shares)
  return l.set asset side ((l.get asset side).withShares shares)

/-- Overwrite an entry price. -/
def setAveragePrice (l : Ledger) (asset : String) (side : OutcomeSide) (price : Decimal) : Ledger :=
  l.set asset side { l.get asset side with averagePrice := price }

/-- Add `filled` shares bought for `spent` dollars. -/
def applyBuy (l : Ledger) (asset : String) (side : OutcomeSide) (filled spent : Decimal) :
    Faultable Ledger := do
  let p ← (l.get asset side).bought filled spent
  return l.set asset side p

/-- Remove `filled` shares. The entry price stays until the position is flat. -/
def applySell (l : Ledger) (asset : String) (side : OutcomeSide) (filled : Decimal) :
    Faultable Ledger := do
  let held := l.get asset side
  let remaining ← held.shares.sub filled
  ensure (.zero ≤ remaining) (.oversold filled held.shares asset side)
  return l.set asset side (held.withShares remaining)

/-- Make one side flat. -/
def close (l : Ledger) (asset : String) (side : OutcomeSide) : Ledger := l.set asset side .flat

/-- The assets with a holding on some side, sorted. -/
def openAssets (l : Ledger) : List String :=
  ((l.pairs.entries.filter fun e => !e.2.isFlat).map Prod.fst).mergeSort fun a b => decide (a ≤ b)

end Ledger
end OutcomeMarket

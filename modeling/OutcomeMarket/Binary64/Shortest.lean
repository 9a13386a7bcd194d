import OutcomeMarket.Binary64.Basic
import OutcomeMarket.Decimal.Reader
import OutcomeMarket.Decimal.Text

/-! The fewest decimal digits that denote a floating-point number. All reals nearer to it than to any
other number denote it; so do the two halfway points if its mantissa is even. Of the grids 10^k the
coarsest with a point among these reals is taken, and on it the point nearest to the number. -/
namespace OutcomeMarket
namespace Binary64

attribute [local instance (high)] instPowNat

/-- Four units below and above a number go to its neighbours: this is how many quarters of the last
bit may be lost downwards. Below a power of two the neighbour is half as far. -/
def slackBelow (x : Binary64) : Nat :=
  if x.mantissa = fullMantissa ∧ minExponent < x.exponent then 1 else 2

/-- Quarters of the last bit of x in one step of the grid 10^k, as a fraction. -/
def step (x : Binary64) (k : Int) : Nat × Nat :=
  (10 ^ k.toNat * 2 ^ (2 - x.exponent).toNat, 10 ^ (-k).toNat * 2 ^ (x.exponent - 2).toNat)

/-- Whether d · 10^k denotes x. -/
def denotedBy (x : Binary64) (d : Nat) (k : Int) : Bool :=
  let (a, b) := x.step k
  let low := (4 * x.mantissa - x.slackBelow) * b
  let high := (4 * x.mantissa + 2) * b
  if x.mantissa % 2 = 0 then decide (low ≤ d * a ∧ d * a ≤ high)
  else decide (low < d * a ∧ d * a < high)

/-- The last point of the grid 10^k that is not above x. -/
def floorOn (x : Binary64) (k : Int) : Nat :=
  let (a, b) := x.step k
  4 * x.mantissa * b / a

/-- Whether x lies in the lower half between a point of the grid and the next one. -/
def nearerBelow (x : Binary64) (d : Nat) (k : Int) : Bool :=
  let (a, b) := x.step k
  decide (2 * (4 * x.mantissa * b) < (2 * d + 1) * a)

/-- The point of the grid 10^k that is nearest to x among those that denote it. -/
def pointOn? (x : Binary64) (k : Int) : Option Nat :=
  let d := x.floorOn k
  if x.denotedBy d k && (x.nearerBelow d k || !x.denotedBy (d + 1) k) then some d
  else if x.denotedBy (d + 1) k then some (d + 1)
  else none

/-- The coarsest of the grids from 10^k downwards that has a point. -/
def search (x : Binary64) : Nat → Int → Option (Nat × Int)
  | 0, _ => none
  | fuel + 1, k =>
    match x.pointOn? k with
    | some d => some (d, k)
    | none => search x fuel (k - 1)

/-- The shortest digits d and their place k: d · 10^k denotes x. -/
def shortest (x : Binary64) : Nat × Int :=
  let size := (Nat.toDigits 10 (x.num / x.den)).length
  (x.search (size + 345) size).getD (0, 0)

/-- The shortest digits in positional notation. -/
def toChars (x : Binary64) : List Char :=
  let (d, k) := x.shortest
  Decimal.positional (d * 10 ^ k.toNat) (-k).toNat

end Binary64

/-- A floating-point number as a decimal: what its shortest digits denote. -/
def Decimal.ofBinary64? (negative : Bool) (x : Binary64) : Option Decimal :=
  (read (String.ofList (signChars negative ++ x.toChars))).toOption

end OutcomeMarket

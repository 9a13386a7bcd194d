/-! Signed decimals with a 96-bit mantissa and up to 28 fractional digits. The scale belongs to the
form of a number and not to its value: `0.4` and `0.40` are different terms of equal value, and so are
a zero with a sign and one without. Order compares cross products, so it sees the value alone. -/
namespace OutcomeMarket
namespace Decimal

/-- The largest mantissa, 2^96 - 1. -/
abbrev maxMantissa : Nat := 79228162514264337593543950335

/-- The most fractional digits. -/
abbrev maxScale : Nat := 28

end Decimal

/-- The number ±mantissa · 10^(-scale). -/
structure Decimal where
  negative : Bool
  mantissa : Nat
  scale : Nat
  mantissa_le : mantissa ≤ Decimal.maxMantissa
  scale_le : scale ≤ Decimal.maxScale
  deriving DecidableEq, Repr

namespace Decimal

-- Powers are the built-in ones, whichever instances are in scope.
attribute [local instance (high)] instPowNat

/-- A non-negative constant from its digits and scale. -/
abbrev lit (mantissa scale : Nat) (hm : mantissa.ble maxMantissa = true := by exact Eq.refl true)
    (hs : scale.ble maxScale = true := by exact Eq.refl true) : Decimal :=
  ⟨false, mantissa, scale, Nat.le_of_ble_eq_true hm, Nat.le_of_ble_eq_true hs⟩

abbrev zero : Decimal := lit 0 0
abbrev one : Decimal := lit 1 0
abbrev two : Decimal := lit 2 0
abbrev hundred : Decimal := lit 100 0

instance : Inhabited Decimal := ⟨zero⟩

/-- The number with these parts, if they are in range. -/
def ofSigned? (negative : Bool) (mantissa scale : Nat) : Option Decimal :=
  if h : mantissa ≤ maxMantissa ∧ scale ≤ maxScale then some ⟨negative, mantissa, scale, h.1, h.2⟩
  else none

/-- The number with these parts, if they are in range. A zero loses its sign. -/
def ofParts? (negative : Bool) (mantissa scale : Nat) : Option Decimal :=
  ofSigned? (negative && mantissa != 0) mantissa scale

/-- A count as a decimal; counts beyond the range stop at its end. -/
def ofNat (n : Nat) : Decimal := ⟨false, min n maxMantissa, 0, Nat.min_le_right _ _, by decide⟩

/-- An integer, if its digits fit the mantissa. -/
def ofInt? (n : Int) : Option Decimal := ofParts? (decide (n < 0)) n.natAbs 0

/-- The mantissa with its sign. -/
def signed (a : Decimal) : Int := if a.negative then -(a.mantissa : Int) else a.mantissa

/-- The value as a rational number. -/
def toRat (a : Decimal) : Rat := mkRat a.signed (10 ^ a.scale)

def isZero (a : Decimal) : Bool := a.mantissa == 0

/-- The mantissa of `a` rescaled by the scale of `b`: one side of the cross comparison. -/
def cross (a b : Decimal) : Int := a.signed * 10 ^ b.scale

instance : LE Decimal := ⟨fun a b => a.cross b ≤ b.cross a⟩
instance : LT Decimal := ⟨fun a b => a.cross b < b.cross a⟩

instance (a b : Decimal) : Decidable (a ≤ b) := inferInstanceAs (Decidable (a.cross b ≤ b.cross a))
instance (a b : Decimal) : Decidable (a < b) := inferInstanceAs (Decidable (a.cross b < b.cross a))

/-- Equality of values, whatever the scales. -/
def SameValue (a b : Decimal) : Prop := a.cross b = b.cross a

instance (a b : Decimal) : Decidable (SameValue a b) :=
  inferInstanceAs (Decidable (a.cross b = b.cross a))

theorem not_lt {a b : Decimal} : ¬ a < b ↔ b ≤ a := Int.not_lt

theorem not_le {a b : Decimal} : ¬ a ≤ b ↔ b < a := Int.not_le

theorem le_refl (a : Decimal) : a ≤ a := Int.le_refl _

theorem le_total (a b : Decimal) : a ≤ b ∨ b ≤ a := Int.le_total _ _

theorem SameValue.symm {a b : Decimal} (h : SameValue a b) : SameValue b a := Eq.symm h

theorem sameValue_iff_le_le {a b : Decimal} : SameValue a b ↔ a ≤ b ∧ b ≤ a :=
  ⟨fun h => ⟨Int.le_of_eq h, Int.le_of_eq h.symm⟩, fun h => Int.le_antisymm h.1 h.2⟩

/-- The opposite number, in the same scale. A zero is its own opposite. -/
def neg (a : Decimal) : Decimal := if a.isZero then a else { a with negative := !a.negative }

/-- The larger of two numbers; of two equal values the first. -/
def max (a b : Decimal) : Decimal := if a < b then b else a

/-- The smaller of two numbers; of two equal values the first. -/
def min (a b : Decimal) : Decimal := if b < a then b else a

theorem le_max_left (a b : Decimal) : a ≤ max a b := by
  unfold max
  split
  · exact Int.le_of_lt ‹_›
  · exact le_refl a

theorem le_max_right (a b : Decimal) : b ≤ max a b := by
  unfold max
  split
  · exact le_refl b
  · exact not_lt.1 ‹_›

theorem min_le_left (a b : Decimal) : min a b ≤ a := by
  unfold min
  split
  · exact Int.le_of_lt ‹_›
  · exact le_refl a

theorem min_le_right (a b : Decimal) : min a b ≤ b := by
  unfold min
  split
  · exact le_refl b
  · exact not_lt.1 ‹_›

end Decimal
end OutcomeMarket

import OutcomeMarket.Decimal.Text

/-! Spans of time in nanoseconds, and how they are written: in seconds, with a fraction that has no
zeros at its end. -/
namespace OutcomeMarket

/-- A signed span of time. -/
structure Duration where
  nanos : Int
  deriving DecidableEq, Repr

namespace Duration

def ofMillis (ms : Int) : Duration := ⟨ms * 1000000⟩

def zero : Duration := ⟨0⟩

instance : LE Duration := ⟨fun a b => a.nanos ≤ b.nanos⟩

instance (a b : Duration) : Decidable (a ≤ b) := inferInstanceAs (Decidable (a.nanos ≤ b.nanos))

/-- Nine fractional digits without the zeros at their end, after a point if any are left. -/
def fraction (nanos : Nat) : List Char :=
  let ds := ((Decimal.digitsPadded 9 nanos).reverse.dropWhile (· = '0')).reverse
  if ds.isEmpty then [] else '.' :: ds

/-- The span as it is written: `P0D`, or seconds such as `-PT1.5S`. -/
def toText (d : Duration) : String :=
  let n := d.nanos.natAbs
  if n = 0 then "P0D"
  else String.ofList (Decimal.signChars (decide (d.nanos < 0)) ++ 'P' :: 'T' ::
    (Nat.toDigits 10 (n / 1000000000) ++ fraction (n % 1000000000) ++ ['S']))

instance : ToString Duration := ⟨toText⟩

end Duration
end OutcomeMarket

import OutcomeMarket.Decimal.Arithmetic

/-! The written form of a decimal: a sign, the integer digits, and exactly as many fractional digits
as the scale says. A fixed number of places is reached by cutting or by padding, never by rounding. -/
namespace OutcomeMarket
namespace Decimal

attribute [local instance (high)] instPowNat

/-- The digits of n in base ten, with zeros in front up to the given width. -/
def digitsPadded (width n : Nat) : List Char :=
  let ds := Nat.toDigits 10 n
  List.replicate (width - ds.length) '0' ++ ds

/-- The digits of m · 10^(-s). Without fractional digits there is no point. -/
def positional (m s : Nat) : List Char :=
  if s = 0 then Nat.toDigits 10 m
  else Nat.toDigits 10 (m / 10 ^ s) ++ '.' :: digitsPadded s (m % 10 ^ s)

def signChars (negative : Bool) : List Char := if negative then ['-'] else []

/-- The number as it is written, trailing zeros included. -/
def toText (a : Decimal) : String :=
  String.ofList (signChars a.negative ++ positional a.mantissa a.scale)

instance : ToString Decimal := ⟨toText⟩

/-- The mantissa at n places: further digits are cut, missing ones are zero. -/
def mantissaAt (a : Decimal) (n : Nat) : Nat :=
  if a.scale ≤ n then a.mantissa * 10 ^ (n - a.scale) else a.mantissa / 10 ^ (a.scale - n)

/-- The most characters of a number with fixed places, its sign not counted. -/
def maxFixedLength : Nat := 32

/-- The number with exactly n places. The sign stays even if only zeros are left. -/
def toFixed (a : Decimal) (n : Nat) : Checked String :=
  let body := positional (a.mantissaAt n) n
  if body.length ≤ maxFixedLength then .ok (String.ofList (signChars a.negative ++ body))
  else .error .textOverflow

end Decimal
end OutcomeMarket

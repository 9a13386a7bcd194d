import OutcomeMarket.Decimal.Arithmetic

/-! Non-negative binary floating-point numbers with 53 bits of precision. Every operation is exact and
then rounded once to the nearest number, a tie to the even mantissa; beyond the range there is none. -/
namespace OutcomeMarket

/-- The number mantissa · 2^exponent. -/
structure Binary64 where
  mantissa : Nat
  exponent : Int
  deriving DecidableEq, Repr

namespace Binary64

attribute [local instance (high)] instPowNat

/-- The exponent of the smallest positive number. -/
abbrev minExponent : Int := -1074

/-- The exponent of the largest numbers. -/
abbrev maxExponent : Int := 971

/-- The least mantissa of full precision, 2^52. -/
abbrev fullMantissa : Nat := 4503599627370496

def zero : Binary64 := ⟨0, minExponent⟩

instance : Inhabited Binary64 := ⟨zero⟩

/-- The number as a fraction: above the line. -/
def num (x : Binary64) : Nat := x.mantissa * 2 ^ x.exponent.toNat

/-- The number as a fraction: below the line. -/
def den (x : Binary64) : Nat := 2 ^ (-x.exponent).toNat

/-- The quotient n / d divided by 2^e, as a fraction again. -/
def unscaled (n d : Nat) (e : Int) : Nat × Nat := (n * 2 ^ (-e).toNat, d * 2 ^ e.toNat)

/-- The binary logarithm of a positive quotient, rounded down. -/
def logOfRatio (n d : Nat) : Int :=
  let guess : Int := n.log2 - d.log2
  let (a, b) := unscaled n d guess
  if a < b then guess - 1 else guess

/-- The number with these parts, if its exponent is in range. -/
def ofParts? (m : Nat) (e : Int) : Option Binary64 := if e ≤ maxExponent then some ⟨m, e⟩ else none

/-- A rounded mantissa may have one bit too many, which is then zero. -/
def ofRounded? (m : Nat) (e : Int) : Option Binary64 :=
  if m = 2 * fullMantissa then ofParts? fullMantissa (e + 1) else ofParts? m e

/-- The number nearest to n / d. -/
def ofRatio? (n d : Nat) : Option Binary64 :=
  if n = 0 then some zero
  else
    let e := max (logOfRatio n d - 52) minExponent
    let (a, b) := unscaled n d e
    ofRounded? (Decimal.roundHalfEven a b) e

def ofNat? (n : Nat) : Option Binary64 := ofRatio? n 1

def mul? (x y : Binary64) : Option Binary64 := ofRatio? (x.num * y.num) (x.den * y.den)

/-- A quotient; there is none by zero. -/
def div? (x y : Binary64) : Option Binary64 :=
  if y.mantissa = 0 then none else ofRatio? (x.num * y.den) (x.den * y.num)

/-- The number nearest to n · 10^k. Digits far outside of the range need not be worked out. -/
def ofDigits? (n : Nat) (k : Int) : Option Binary64 :=
  let size := (Nat.toDigits 10 n).length + k
  if n = 0 ∨ size < -400 then some zero
  else if 400 < size then none
  else ofRatio? (n * 10 ^ k.toNat) (10 ^ (-k).toNat)

end Binary64
end OutcomeMarket

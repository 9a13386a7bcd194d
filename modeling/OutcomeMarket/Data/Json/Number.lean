import OutcomeMarket.Data.Datum

/-! Numbers in JSON. A literal without fraction and exponent is an integer if 64 bits hold it. From any
other the leading digits are kept as far as 64 bits hold them; they are rounded to a floating-point number,
and that is multiplied or divided by a rounded power of ten. -/
namespace OutcomeMarket
namespace Json

/-- A number as it is written. -/
structure Literal where
  negative : Bool
  whole : List Char
  /-- The digits after the point, if there is one -/
  fraction : Option (List Char)
  /-- The exponent, if there is one: whether it is negative, and its digits -/
  exponent : Option (Bool × List Char)
  deriving DecidableEq, Repr

namespace Literal

attribute [local instance (high)] instPowNat

/-- All digits in front, and what follows them. -/
def spanDigits (cs : List Char) : List Char × List Char :=
  (cs.takeWhile Char.isDigit, cs.dropWhile Char.isDigit)

/-- The same, but there has to be a digit. -/
def someDigits? (cs : List Char) : Option (List Char × List Char) :=
  match spanDigits cs with
  | ([], _) => none
  | r => some r

/-- The integer part. A leading zero stands alone. -/
def readWhole? : List Char → Option (List Char × List Char)
  | '0' :: cs => if cs.head?.any Char.isDigit then none else some (['0'], cs)
  | cs => someDigits? cs

def readFraction? : List Char → Option (Option (List Char) × List Char)
  | '.' :: cs => do
    let (ds, cs) ← someDigits? cs
    return (some ds, cs)
  | cs => some (none, cs)

/-- The sign of an exponent. -/
def splitSign : List Char → Bool × List Char
  | '-' :: cs => (true, cs)
  | '+' :: cs => (false, cs)
  | cs => (false, cs)

def readExponent? : List Char → Option (Option (Bool × List Char) × List Char)
  | c :: cs =>
    if c = 'e' ∨ c = 'E' then do
      let (negative, cs) := splitSign cs
      let (ds, cs) ← someDigits? cs
      return (some (negative, ds), cs)
    else some (none, c :: cs)
  | [] => some (none, [])

/-- The number in front of a text, and what follows it. -/
def read? (cs : List Char) : Option (Literal × List Char) := do
  let (negative, cs) := match cs with
    | '-' :: r => (true, r)
    | r => (false, r)
  let (whole, cs) ← readWhole? cs
  let (fraction, cs) ← readFraction? cs
  let (exponent, cs) ← readExponent? cs
  return (⟨negative, whole, fraction, exponent⟩, cs)

def digitValue (c : Char) : Nat := c.toNat - '0'.toNat

def natOf (ds : List Char) : Nat := ds.foldl (fun n c => n * 10 + digitValue c) 0

/-- Append digits to m for as long as 64 bits hold it. The second part is how many were appended. -/
def keep (m : Nat) : List Char → Nat × Nat
  | [] => (m, 0)
  | c :: cs =>
    let n := m * 10 + digitValue c
    if n < 2 ^ (64 : Nat) then
      let (r, k) := keep n cs
      (r, k + 1)
    else (m, 0)

/-- The digits that are kept and the power of ten that they are to be scaled by. -/
def parts (l : Literal) : Nat × Int :=
  let (m, taken) := keep 0 l.whole
  let dropped : Int := l.whole.length - taken
  let (m, places) := keep m (l.fraction.getD [])
  let e : Int := match l.exponent with
    | some (true, ds) => -(natOf ds : Int)
    | some (false, ds) => natOf ds
    | none => 0
  (m, dropped - places + e)

/-- The largest power of ten that is used in one step. -/
abbrev maxPower : Nat := 308

def divPower? (x : Binary64) (n : Nat) : Option Binary64 := do x.div? (← Binary64.ofNat? (10 ^ n))

/-- A number scaled by a power of ten. A large division takes two steps; what is left after them is
zero if there is still more to divide by. -/
def scale? (x : Binary64) (e : Int) : Option Binary64 :=
  if x.mantissa = 0 then some x
  else if maxPower < e then none
  else if 0 ≤ e then do x.mul? (← Binary64.ofNat? (10 ^ e.toNat))
  else if -maxPower ≤ e then divPower? x (-e).toNat
  else if -2 * maxPower ≤ e then do divPower? (← divPower? x maxPower) (-e - maxPower).toNat
  else some .zero

/-- The literal as a floating-point number. -/
def toReal (l : Literal) : Datum :=
  let (m, e) := l.parts
  .ofReal l.negative (do scale? (← Binary64.ofNat? m) e)

/-- The integer that a literal without fraction and exponent denotes. There is no negative zero. -/
def toInt? (l : Literal) : Option Int :=
  let n : Int := if l.negative then -(natOf l.whole : Int) else natOf l.whole
  if l.fraction.isSome || l.exponent.isSome || (l.negative && n == 0) || !Datum.fitsWord n then none
  else some n

def toDatum (l : Literal) : Datum :=
  match l.toInt? with
  | some n => .int n
  | none => l.toReal

end Literal
end Json
end OutcomeMarket

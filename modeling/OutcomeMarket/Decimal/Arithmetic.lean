import OutcomeMarket.Decimal.Basic

/-! Arithmetic on decimals. Sums, differences and products are exact and then brought to the longest
form in range, a half going to the even neighbour. Quotients are developed digit by digit. What
does not fit is a fault, never a wrapped value. -/
namespace OutcomeMarket
namespace Decimal

attribute [local instance (high)] instPowNat

/-- Why an operation has no result. -/
inductive ArithmeticFault where
  | additionOverflow
  | subtractionOverflow
  | multiplicationOverflow
  | divisionOverflow
  | divisionByZero
  | textOverflow
  deriving DecidableEq, Repr

def ArithmeticFault.message : ArithmeticFault → String
  | .additionOverflow => "Addition overflowed"
  | .subtractionOverflow => "Subtraction overflowed"
  | .multiplicationOverflow => "Multiplication overflowed"
  | .divisionOverflow => "Division overflowed"
  | .divisionByZero => "Division by zero"
  | .textOverflow =>
    "called `Result::unwrap()` on an `Err` value: CapacityError: insufficient capacity"

/-- Results of arithmetic. -/
abbrev Checked := Except ArithmeticFault

/-- A value if there is one, else the fault. -/
def orFault {α : Type} (f : ArithmeticFault) : Option α → Checked α
  | some a => .ok a
  | none => .error f

/-- The quotient n / d to the nearest integer, a half to the even one. -/
def roundHalfEven (n d : Nat) : Nat :=
  let q := n / d
  let r := n % d
  if d < 2 * r ∨ (2 * r = d ∧ q % 2 = 1) then q + 1 else q

/-- The number m · 10^(-s) without its last k digits. -/
def shorten? (negative : Bool) (m s k : Nat) : Option Decimal :=
  ofParts? negative (roundHalfEven m (10 ^ k)) (s - k)

/-- The longest form in range of ±m · 10^(-s): the fewest digits are given up. -/
def fit? (negative : Bool) (m s : Nat) : Option Decimal :=
  (List.range (s + 1)).findSome? (shorten? negative m s)

/-- The sum of two numbers at the larger of their scales. -/
def exactSum (a b : Decimal) : Int :=
  a.signed * 10 ^ (b.scale - a.scale) + b.signed * 10 ^ (a.scale - b.scale)

/-- A sum in range. A zero operand leaves the other one as it is, in its own scale. -/
def sum? (a b : Decimal) : Option Decimal :=
  if a.isZero then some b
  else if b.isZero then some a
  else fit? (decide (exactSum a b < 0)) (exactSum a b).natAbs (Nat.max a.scale b.scale)

def add (a b : Decimal) : Checked Decimal := orFault .additionOverflow (sum? a b)

def sub (a b : Decimal) : Checked Decimal := orFault .subtractionOverflow (sum? a b.neg)

/-- A product of zero is plain zero, and so is one of two short mantissas that vanishes. -/
def mul (a b : Decimal) : Checked Decimal :=
  if a.isZero || b.isZero then .ok zero
  else if a.mantissa < 2 ^ (32 : Nat) ∧ b.mantissa < 2 ^ (32 : Nat) ∧ 47 < a.scale + b.scale then .ok zero
  else orFault .multiplicationOverflow
    (fit? (a.negative != b.negative) (a.mantissa * b.mantissa) (a.scale + b.scale))

/-- The sum of a list from the left, starting at plain zero. -/
def sum (xs : List Decimal) : Checked Decimal := xs.foldlM add zero

/-- The most digits, up to `cap`, that can be appended to q within the mantissa. -/
def room (q : Nat) : Nat → Nat
  | 0 => 0
  | cap + 1 => if q * 10 ^ (cap + 1) ≤ maxMantissa then cap + 1 else room q cap

/-- Digits of a quotient and their scale. -/
structure Quotient where
  digits : Nat
  scale : Int
  deriving DecidableEq, Repr

/-- One digit fewer, for a quotient that has outgrown the mantissa. `inexact` says that digits
beyond those held are not all zero, which breaks a tie upwards. -/
def Quotient.dropDigit (q : Quotient) (inexact : Bool) : Option Quotient :=
  if q.scale < 1 then none
  else
    let n := q.digits / 10
    let d := q.digits % 10
    some ⟨if 5 < d ∨ (d = 5 ∧ (inexact ∨ n % 2 = 1)) then n + 1 else n, q.scale - 1⟩

/-- Long division by d, up to nine digits a step: q are the digits so far, r the rest, s the scale.
It stops at a zero rest, or when the mantissa or the scale is used up and the last digit is rounded. -/
def develop (d q r : Nat) (s : Int) : Option Quotient :=
  if r = 0 then
    if 0 ≤ s then some ⟨q, s⟩
    else
      let x := Nat.min 9 (-s).toNat
      if maxMantissa < q * 10 ^ x then none else develop d (q * 10 ^ x) 0 (s + x)
  else
    let x := room q (Nat.min 9 (28 - s).toNat)
    if x < 9 ∧ x + s < 0 then none
    else if x = 0 then
      let q' := if d < 2 * r ∨ (2 * r = d ∧ q % 2 = 1) then q + 1 else q
      if maxMantissa < q' then Quotient.dropDigit ⟨q', s⟩ true else some ⟨q', s⟩
    else
      let q' := q * 10 ^ x + r * 10 ^ x / d
      let r' := r * 10 ^ x % d
      if maxMantissa < q' then Quotient.dropDigit ⟨q', s + x⟩ (r' != 0) else develop d q' r' (s + x)
termination_by (28 - s).toNat
decreasing_by
  · have : 0 < Nat.min 9 (-s).toNat := by
      have : Nat.min 9 (-s).toNat = if 9 ≤ (-s).toNat then 9 else (-s).toNat := rfl
      split at this <;> omega
    omega
  · have hle : ∀ c, room q c ≤ c := by
      intro c
      induction c with
      | zero => exact Nat.le_refl 0
      | succ c ih =>
        unfold room
        split
        · exact Nat.le_refl _
        · exact Nat.le_succ_of_le ih
    have h1 : room q (Nat.min 9 (28 - s).toNat) ≤ (28 - s).toNat :=
      Nat.le_trans (hle _) (Nat.min_le_right _ _)
    omega

/-- Take k zeros off the end, if there are k and the scale allows it. -/
def Quotient.stripZeros (q : Quotient) (k : Nat) : Quotient :=
  if k ≤ q.scale ∧ q.digits % 10 ^ k = 0 then ⟨q.digits / 10 ^ k, q.scale - k⟩ else q

/-- Take eight zeros off for as long as the low 32 bits are all zero; at most `fuel` times. -/
def Quotient.stripBlocks (q : Quotient) : Nat → Quotient
  | 0 => q
  | fuel + 1 =>
    if q.digits % 2 ^ (32 : Nat) = 0 ∧ 8 ≤ q.scale ∧ q.digits % 10 ^ (8 : Nat) = 0 then
      Quotient.stripBlocks ⟨q.digits / 10 ^ (8 : Nat), q.scale - 8⟩ fuel
    else q

/-- The form of a quotient that did not come out at once: blocks of eight zeros go, then four,
two and one, each at most once. Some zeros may stay. -/
def Quotient.strip (q : Quotient) : Quotient :=
  (((q.stripBlocks 4).stripZeros 4).stripZeros 2).stripZeros 1

/-- A quotient of zero is plain zero. -/
def div (a b : Decimal) : Checked Decimal :=
  if b.isZero then .error .divisionByZero
  else if a.isZero then .ok zero
  else
    let q := (develop b.mantissa (a.mantissa / b.mantissa) (a.mantissa % b.mantissa)
      ((a.scale : Int) - b.scale)).map fun q => if a.mantissa % b.mantissa = 0 then q else q.strip
    orFault .divisionOverflow
      (q.bind fun q => if 0 ≤ q.scale then ofParts? (a.negative != b.negative) q.digits q.scale.toNat
        else none)

end Decimal
end OutcomeMarket

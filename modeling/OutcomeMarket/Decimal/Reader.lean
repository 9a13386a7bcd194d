import OutcomeMarket.Decimal.Arithmetic

/-! Reading decimals. A plain number is a sign, digits with at most one point, and underscores after
the first digit; digits beyond the range are rounded off after the point and refused before it. A
text that is no plain number and holds an exponent letter is read as base and power of ten. -/
namespace OutcomeMarket
namespace Decimal

attribute [local instance (high)] instPowNat

/-- Why a text is no decimal. -/
inductive ReadError where
  | empty
  | unknownCharacter
  | twoPoints
  | leadingUnderscore
  | noDigits
  | tooManyDigits
  | roundedPastRange
  | badExponent
  | scaleExceeded (scale : Nat)
  | tooLarge
  deriving DecidableEq, Repr

def ReadError.message : ReadError → String
  | .empty => "Invalid decimal: empty"
  | .unknownCharacter => "Invalid decimal: unknown character"
  | .twoPoints => "Invalid decimal: two decimal points"
  | .leadingUnderscore => "Invalid decimal: must start lead with a number"
  | .noDigits => "Invalid decimal: no digits found"
  | .tooManyDigits => "Invalid decimal: overflow from too many digits"
  | .roundedPastRange => "Invalid decimal: overflow from mantissa after rounding"
  | .badExponent => "Failed to parse"
  | .scaleExceeded n => s!"Scale exceeds the maximum precision allowed: {n} > 28"
  | .tooLarge => "Number exceeds maximum value that can be represented."

/-- Digits read so far: m · 10^(-s), and whether a point and a digit have been seen. -/
structure Scan where
  mantissa : Nat
  scale : Nat
  point : Bool
  started : Bool
  deriving DecidableEq, Repr

/-- Digits that have been rounded off may only be followed by digits and underscores. -/
def checkTail : List Char → Except ReadError Unit
  | [] => .ok ()
  | c :: cs =>
    if c.isDigit || c = '_' then checkTail cs
    else .error (if c = '.' then .twoPoints else .unknownCharacter)

/-- Round off at a first digit that does not fit: five and more round up. A mantissa that leaves
the range by this loses a digit, for which it needs a fractional one. -/
def roundOff (m s d : Nat) : Except ReadError (Nat × Nat) :=
  if d < 5 then .ok (m, s)
  else if m + 1 ≤ maxMantissa then .ok (m + 1, s)
  else if s = 0 then .error .roundedPastRange
  else .ok ((m + 5) / 10, s - 1)

/-- Mantissa and scale of a text without sign. -/
def scan (st : Scan) : List Char → Except ReadError (Nat × Nat)
  | [] => if st.started then .ok (st.mantissa, st.scale) else .error .noDigits
  | c :: cs =>
    if c.isDigit then
      let d := c.toNat - '0'.toNat
      let m := st.mantissa * 10 + d
      if st.point then
        if st.scale = maxScale ∨ maxMantissa < m then do
          let r ← roundOff st.mantissa st.scale d
          checkTail cs
          return r
        else scan { st with mantissa := m, scale := st.scale + 1, started := true } cs
      else if maxMantissa < m then .error .tooManyDigits
      else scan { st with mantissa := m, started := true } cs
    else if c = '.' then
      if st.point then .error .twoPoints else scan { st with point := true } cs
    else if c = '_' then
      if st.started then scan st cs else .error .leadingUnderscore
    else .error .unknownCharacter

/-- The sign in front of a text, and what follows it. -/
def splitSign : List Char → Bool × List Char
  | '-' :: cs => (true, cs)
  | '+' :: cs => (false, cs)
  | cs => (false, cs)

/-- A number without exponent. -/
def readPlain (cs : List Char) : Except ReadError Decimal :=
  if cs.isEmpty then .error .empty
  else do
    let (negative, body) := splitSign cs
    let (m, s) ← scan ⟨0, 0, false, false⟩ body
    match ofParts? negative m s with
    | some d => .ok d
    | none => .error .tooLarge

def isExponentMark (c : Char) : Bool := c = 'e' || c = 'E'

/-- The exponent after its mark: whether it is negative, and its size, below 2^32. -/
def readExponent? (cs : List Char) : Option (Bool × Nat) :=
  let (negative, cs) := match cs with
    | '-' :: r => (true, r)
    | r => (false, r)
  let digits := match cs with
    | '+' :: r => r
    | r => r
  if digits.isEmpty || !digits.all Char.isDigit then none
  else
    let n := digits.foldl (fun n c => n * 10 + (c.toNat - '0'.toNat)) 0
    if n < 2 ^ (32 : Nat) then some (negative, n) else none

/-- The quotient n / d to the nearest integer, a half up. -/
def roundHalfUp (n d : Nat) : Nat := (2 * n + d) / (2 * d)

/-- No zeros at the end of the fraction. -/
def trimZeros (m : Nat) : Nat → Nat × Nat
  | 0 => (m, 0)
  | s + 1 => if m % 10 = 0 then trimZeros (m / 10) s else (m, s + 1)

/-- The base divided by 10^n: the scale grows, and digits beyond the last place round half up. The
sign stays even if that leaves a zero. -/
def scaleDown (a : Decimal) (n : Nat) : Except ReadError Decimal :=
  let parts :=
    if a.scale + n ≤ maxScale then ofSigned? a.negative a.mantissa (a.scale + n)
    else ofSigned? a.negative (roundHalfUp a.mantissa (10 ^ (a.scale + n - maxScale))) maxScale
  if maxScale < n then .error (.scaleExceeded n)
  else match parts with
    | some d => .ok d
    | none => .error .tooLarge

/-- The base times 10^n: the scale shrinks as far as it goes; beyond that the product is taken
and its trailing zeros are dropped. -/
def scaleUp (a : Decimal) (n : Nat) : Except ReadError Decimal :=
  let result :=
    if n ≤ a.scale then ofParts? a.negative a.mantissa (a.scale - n)
    else do
      let p ← (mul a (← ofParts? false (10 ^ n) 0)).toOption
      let (m, s) := trimZeros p.mantissa p.scale
      ofParts? p.negative m s
  if a.scale < n ∧ maxScale < n then .error (.scaleExceeded n)
  else match result with
    | some d => .ok d
    | none => .error .tooLarge

/-- A base, an exponent mark and an exponent. -/
def readScientific (cs : List Char) : Except ReadError Decimal := do
  let a ← readPlain (cs.takeWhile fun c => !isExponentMark c)
  match readExponent? ((cs.dropWhile fun c => !isExponentMark c).drop 1) with
  | none => .error .badExponent
  | some (true, n) => scaleDown a n
  | some (false, n) => scaleUp a n

/-- The decimal that a text denotes. -/
def read (text : String) : Except ReadError Decimal :=
  let cs := text.toList
  match readPlain cs with
  | .ok d => .ok d
  | .error e => if cs.any isExponentMark then readScientific cs else .error e

end Decimal
end OutcomeMarket

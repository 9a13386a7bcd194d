/-! Texts in JSON: in double quotes, with escapes. A code point beyond 16 bits may be escaped as two
surrogates; a surrogate without its partner stands for no character. -/
namespace OutcomeMarket
namespace Json

def hexDigit? (c : Char) : Option Nat :=
  if c.isDigit then some (c.toNat - '0'.toNat)
  else if 'a' ≤ c ∧ c ≤ 'f' then some (c.toNat - 'a'.toNat + 10)
  else if 'A' ≤ c ∧ c ≤ 'F' then some (c.toNat - 'A'.toNat + 10)
  else none

/-- A number of hexadecimal digits, the first one leading. -/
def hex? (cs : List Char) : Option Nat :=
  cs.foldlM (fun n c => do return n * 16 + (← hexDigit? c)) 0

/-- What a letter stands for after a backslash. -/
def unescape? (c : Char) : Option Nat :=
  match c with
  | '"' | '\\' | '/' => some c.toNat
  | 'b' => some 8
  | 'f' => some 12
  | 'n' => some 10
  | 'r' => some 13
  | 't' => some 9
  | _ => none

/-- The code units between an opening quote, which has been read, and the closing one. -/
def readUnits? : List Char → Option (List Nat × List Char)
  | [] => none
  | '"' :: cs => some ([], cs)
  | '\\' :: 'u' :: a :: b :: c :: d :: cs => do
    let n ← hex? [a, b, c, d]
    let (us, rest) ← readUnits? cs
    return (n :: us, rest)
  | '\\' :: c :: cs => do
    let n ← unescape? c
    let (us, rest) ← readUnits? cs
    return (n :: us, rest)
  | c :: cs =>
    if c.toNat < 0x20 ∨ c = '\\' then none
    else do
      let (us, rest) ← readUnits? cs
      return (c.toNat :: us, rest)

def isHigh (u : Nat) : Bool := 0xd800 ≤ u && u < 0xdc00

def isLow (u : Nat) : Bool := 0xdc00 ≤ u && u < 0xe000

/-- The code point of two surrogates. -/
def joinUnits (high low : Nat) : Nat := 0x10000 + (high - 0xd800) * 0x400 + (low - 0xdc00)

/-- The characters that code units stand for, if there is no surrogate without a partner. -/
def charsOfUnits? : List Nat → Option (List Char)
  | [] => some []
  | [u] => if isHigh u || isLow u then none else some [Char.ofNat u]
  | u :: v :: us =>
    if isHigh u && isLow v then (Char.ofNat (joinUnits u v) :: ·) <$> charsOfUnits? us
    else if isHigh u || isLow u then none
    else (Char.ofNat u :: ·) <$> charsOfUnits? (v :: us)

/-- The text after an opening quote, if it is one, and what follows it. -/
def readText? (cs : List Char) : Option (Option String × List Char) := do
  let (us, rest) ← readUnits? cs
  return (String.ofList <$> charsOfUnits? us, rest)

/-- Four hexadecimal digits. -/
def hex4 (n : Nat) : List Char :=
  let ds := Nat.toDigits 16 n
  List.replicate (4 - ds.length) '0' ++ ds

/-- A character between quotes. Only what has to be is escaped. -/
def escapeChar (c : Char) : List Char :=
  if c = '"' then ['\\', '"']
  else if c = '\\' then ['\\', '\\']
  else if c.toNat < 0x20 then '\\' :: 'u' :: hex4 c.toNat
  else [c]

def writeText (s : String) : String :=
  String.ofList ('"' :: (s.toList.flatMap escapeChar ++ ['"']))

end Json
end OutcomeMarket

import OutcomeMarket.Data.Json.Number
import OutcomeMarket.Data.Json.Text
import OutcomeMarket.Data.Yaml.Tag
import OutcomeMarket.Data.Yaml.Text

/-! What a text in YAML stands for. A plain one may be null, a truth value or a number, and it is a text if
it is none of these; any other is a text. A tag decides otherwise. Digits behind a leading zero are no
number. -/
namespace OutcomeMarket
namespace Yaml

open Json.Literal (spanDigits natOf)

def isNull (s : String) : Bool := ["null", "Null", "NULL", "~"].contains s

def bool? (s : String) : Option Bool :=
  if ["true", "True", "TRUE"].contains s then some true
  else if ["false", "False", "FALSE"].contains s then some false
  else none

/-- A sign in front. -/
def startsSigned : List Char → Bool
  | '+' :: _ | '-' :: _ => true
  | _ => false

/-- The text without a plus in front, unless a second sign follows it. -/
def stripPlus? : List Char → Option (List Char)
  | '+' :: cs => if startsSigned cs then none else some cs
  | cs => some cs

/-- A zero with more digits behind it, after a sign or not. -/
def isZeroLed (cs : List Char) : Bool :=
  match (if startsSigned cs then cs.drop 1 else cs) with
  | '0' :: d :: ds => (d :: ds).all Char.isDigit
  | _ => false

/-- A number in a base of at most sixteen. -/
def natInBase? (base : Nat) (cs : List Char) : Option Nat :=
  if cs.isEmpty then none
  else cs.foldlM (fun n c => do
    let d ← Json.hexDigit? c
    if d < base then some (n * base + d) else none) 0

/-- A number without sign; its first two characters may name another base than ten. -/
def nat? : List Char → Option Nat
  | '0' :: 'x' :: cs => natInBase? 16 cs
  | '0' :: 'o' :: cs => natInBase? 8 cs
  | '0' :: 'b' :: cs => natInBase? 2 cs
  | cs => natInBase? 10 cs

/-- An integer. A zero with a minus in front is kept as a real number, which has a sign of its own. -/
def integer? (cs : List Char) : Option Datum :=
  if isZeroLed cs then none
  else match cs with
    | '-' :: cs => do
      let n ← nat? cs
      if n = 0 then return .real true .zero
      return if Datum.fitsWord (-(n : Int)) then .int (-(n : Int)) else .unreadable
    | cs => do
      let n ← nat? (← stripPlus? cs)
      return if Datum.fitsWord n then .int n else .unreadable

/-- An exponent, or nothing at all. -/
def exponent? : List Char → Option Int
  | [] => some 0
  | c :: cs =>
    if c = 'e' ∨ c = 'E' then
      let (negative, cs) := Json.Literal.splitSign cs
      if cs.isEmpty || !cs.all Char.isDigit then none
      else some (if negative then -(natOf cs : Int) else natOf cs)
    else none

/-- A decimal fraction without sign: digits before or after a point, and an exponent. -/
def magnitude? (cs : List Char) : Option Binary64 := do
  let (whole, cs) := spanDigits cs
  let (fraction, cs) := match cs with
    | '.' :: cs => spanDigits cs
    | cs => ([], cs)
  if whole.isEmpty && fraction.isEmpty then failure
  let e ← exponent? cs
  Binary64.ofDigits? (natOf (whole ++ fraction)) (e - fraction.length)

/-- A real number within the range of floating-point numbers. -/
def real? : List Char → Option Datum
  | '-' :: cs => .real true <$> magnitude? cs
  | cs => do return .real false (← magnitude? (← stripPlus? cs))

/-- Infinities and what is not a number; no decimal is one of them. -/
def isSpecial (s : String) : Bool :=
  [".inf", ".Inf", ".INF", "+.inf", "+.Inf", "+.INF", "-.inf", "-.Inf", "-.INF",
    ".nan", ".NaN", ".NAN"].contains s

/-- A plain text. -/
def ofPlain (s : String) : Datum :=
  if s.isEmpty then .missing
  else if isNull s then .null
  else if isSpecial s then .unreadable
  else match bool? s, integer? s.toList with
    | some b, _ => .bool b
    | none, some d => d
    | none, none => if isZeroLed s.toList then .text s else (real? s.toList).getD (.text s)

/-- What a tag makes of a text. Only a plain text can be made null. -/
def Tag.apply (style : Style) (s : String) : Tag → Datum
  | boolean => ((bool? s).map .bool).getD .unreadable
  | integer => (integer? s.toList).getD .unreadable
  | real => (real? s.toList).getD .unreadable
  | null => if style = .plain ∧ isNull s then .null else .unreadable
  | own | nonspecific => .unreadable
  | shared => .text s

/-- What a text with a tag says by itself. If it is not plain, its tag has to say what it is. -/
def bareValue (style : Style) (tag : Tag) (s : String) : Datum :=
  match style, tag with
  | .plain, _ => ofPlain s
  | .literal, .boolean | .literal, .integer => tag.apply style s
  | _, _ => .unreadable

/-- A text in the given style, with or without a tag. -/
def ofText (style : Style) (tag : Option Tag) (s : String) : Datum :=
  match tag with
  | some t => .tagged (bareValue style t s) (t.apply style s)
  | none => if style = .plain then ofPlain s else .text s

end Yaml
end OutcomeMarket

import OutcomeMarket.Text.Blank
import OutcomeMarket.Time.Instant

/-! Reading instants: a date, `T` or a space, a time of day and an offset from universal time.
Months, days and the parts of the time may have one digit, and blanks may stand before a number, before
a separator and around the offset. Fractional digits after the ninth are dropped. -/
namespace OutcomeMarket
namespace Instant

/-- A reader takes what it needs from the front of the text, or fails. -/
abbrev Scanner := StateT (List Char) Option

namespace Scanner

attribute [local instance (high)] instPowNat

def skipBlanks : Scanner Unit := modify Text.trimStart

/-- One given character. -/
def literal (c : Char) : Scanner Unit := do
  match ← get with
  | x :: rest => if x = c then set rest else failure
  | [] => failure

def digitValue (ds : List Char) : Nat := ds.foldl (fun n c => n * 10 + (c.toNat - '0'.toNat)) 0

/-- All digits in front. -/
def digits : Scanner (List Char) := do
  let cs ← get
  set (cs.dropWhile Char.isDigit)
  return cs.takeWhile Char.isDigit

/-- A number of at least one and at most so many digits. -/
def number (most : Nat) : Scanner Nat := do
  let cs ← get
  let ds := (cs.take most).takeWhile Char.isDigit
  if ds.isEmpty then failure
  set (cs.drop ds.length)
  return digitValue ds

/-- A number after blanks. -/
def field (most : Nat) : Scanner Nat := skipBlanks *> number most

/-- A separator after blanks. -/
def separator (c : Char) : Scanner Unit := skipBlanks *> literal c

/-- A year of at most four digits, or of any length after a sign. -/
def year : Scanner Int := do
  skipBlanks
  let cs ← get
  match cs with
  | '-' :: rest =>
    set rest
    return -((← number rest.length : Nat) : Int)
  | '+' :: rest =>
    set rest
    return (← number rest.length : Nat)
  | _ => return (← number 4 : Nat)

def date : Scanner Date := do
  let y ← year
  separator '-'
  let m ← field 2
  separator '-'
  let d ← field 2
  if (Date.mk y m d).isValid then return ⟨y, m, d⟩ else failure

/-- The fraction of a second in nanoseconds. -/
def fraction : Scanner Nat := do
  match ← get with
  | '.' :: rest =>
    set rest
    let ds ← digits
    if ds.isEmpty then failure
    let kept := ds.take 9
    return digitValue kept * 10 ^ (9 - kept.length)
  | _ => return 0

/-- Seconds into the day and nanoseconds. The sixtieth second is a leap second. -/
def clock : Scanner (Nat × Nat) := do
  let h ← field 2
  separator ':'
  let m ← field 2
  separator ':'
  let s ← field 2
  let n ← fraction
  if 23 < h ∨ 59 < m ∨ 60 < s then failure
  if s = 60 then return (h * 3600 + m * 60 + 59, n + perSecond)
  else return (h * 3600 + m * 60 + s, n)

/-- Exactly two digits. -/
def twoDigits : Scanner Nat := do
  let cs ← get
  match cs with
  | a :: b :: rest =>
    if a.isDigit && b.isDigit then
      set rest
      return digitValue [a, b]
    else failure
  | _ => failure

/-- Hours and minutes of an offset, in seconds; less than a day. -/
def offsetSize : Scanner Int := do
  let h ← twoDigits
  modify (List.dropWhile fun c => c = ':' || Text.isBlank c)
  let m ← twoDigits
  if 59 < m ∨ 23 < h then failure
  return h * 3600 + m * 60

/-- The offset in seconds: `UTC`, `Z`, or a sign with hours and minutes. -/
def offset : Scanner Int := do
  skipBlanks
  let cs ← get
  if (cs.take 3).map Char.toUpper = ['U', 'T', 'C'] then
    set (cs.drop 3)
    return 0
  match cs with
  | c :: rest =>
    set rest
    if c = 'Z' ∨ c = 'z' then return 0
    else if c = '+' then offsetSize
    else if c = '-' ∨ c = '−' then return -(← offsetSize)
    else failure
  | [] => failure

def dateSeparator : Scanner Unit := do
  match ← get with
  | c :: rest => if c = 'T' ∨ c = 't' ∨ c = ' ' then set rest else failure
  | [] => failure

def instant : Scanner Instant := do
  let d ← date
  dateSeparator
  let (s, n) ← clock
  let o ← offset
  skipBlanks
  if !(← get).isEmpty then failure
  match ofParts? (d.toDays * 86400 + s) 0, ofParts? (d.toDays * 86400 + s - o) n with
  | some _, some t => return t
  | _, _ => failure

end Scanner

/-- The instant that a text denotes. -/
def read? (text : String) : Option Instant := (Scanner.instant.run text.toList).map Prod.fst

end Instant
end OutcomeMarket

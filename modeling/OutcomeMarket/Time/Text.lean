import OutcomeMarket.Time.Instant

/-! The written forms of an instant. Years from 0 to 9999 have four digits, others a sign and at least
four; the fraction of a second has none, three, six or nine digits, the fewest that are exact. -/
namespace OutcomeMarket
namespace Instant

def yearText (y : Int) : List Char :=
  if 0 ≤ y ∧ y ≤ 9999 then Decimal.digitsPadded 4 y.toNat
  else (if y < 0 then '-' else '+') :: Decimal.digitsPadded 4 y.natAbs

/-- The fraction of a second, after its point. -/
def fractionText (nanos : Nat) : List Char :=
  if nanos = 0 then []
  else if nanos % 1000000 = 0 then '.' :: Decimal.digitsPadded 3 (nanos / 1000000)
  else if nanos % 1000 = 0 then '.' :: Decimal.digitsPadded 6 (nanos / 1000)
  else '.' :: Decimal.digitsPadded 9 nanos

/-- The day of an instant. -/
def date (t : Instant) : Date := Date.ofDays (t.seconds / 86400)

def dateText (t : Instant) : List Char :=
  let d := t.date
  yearText d.year ++ '-' :: Decimal.digitsPadded 2 d.month ++ '-' :: Decimal.digitsPadded 2 d.day

/-- Hours, minutes and seconds. A leap second is the sixtieth. -/
def clockText (t : Instant) : List Char :=
  let s := (t.seconds % 86400).toNat
  Decimal.digitsPadded 2 (s / 3600) ++ ':' :: Decimal.digitsPadded 2 (s / 60 % 60) ++
    ':' :: Decimal.digitsPadded 2 (s % 60 + t.nanos / perSecond)

/-- Date, `T`, time and `Z`. -/
def toText (t : Instant) : String :=
  String.ofList (t.dateText ++ 'T' :: t.clockText ++ fractionText (t.nanos % perSecond) ++ ['Z'])

/-- The form used in messages. -/
def toMessage (t : Instant) : String :=
  String.ofList (t.dateText ++ ' ' :: t.clockText ++ fractionText (t.nanos % perSecond) ++
    " UTC".toList)

/-- Date and time to the whole second. -/
def toSecondsText (t : Instant) : String := String.ofList (t.dateText ++ ' ' :: t.clockText)

end Instant
end OutcomeMarket

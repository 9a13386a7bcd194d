import OutcomeMarket.Account.Side
import OutcomeMarket.Decimal.Text
import OutcomeMarket.Time.Text

/-! Records of the trade history: every fill, settlement and rejection leaves one. -/
namespace OutcomeMarket

/-- What a record is about. -/
inductive TradeKind where
  | buy
  | sell
  | buyNo
  | sellNo
  | resolveYes
  | resolveNo
  | rejectBuy
  | rejectSell
  deriving DecidableEq, Repr

namespace TradeKind

def name : TradeKind → String
  | buy => "BUY"
  | sell => "SELL"
  | buyNo => "BUY_NO"
  | sellNo => "SELL_NO"
  | resolveYes => "RESOLVE_YES"
  | resolveNo => "RESOLVE_NO"
  | rejectBuy => "REJECT_BUY"
  | rejectSell => "REJECT_SELL"

instance : ToString TradeKind := ⟨name⟩

def all : List TradeKind :=
  [buy, sell, buyNo, sellNo, resolveYes, resolveNo, rejectBuy, rejectSell]

/-- The kind with this name. -/
def ofName? (s : String) : Option TradeKind := all.find? fun k => k.name == s

def buyOf : OutcomeSide → TradeKind
  | .yes => buy
  | .no => buyNo

def sellOf : OutcomeSide → TradeKind
  | .yes => sell
  | .no => sellNo

def resolveOf : OutcomeSide → TradeKind
  | .yes => resolveYes
  | .no => resolveNo

def isBuy (k : TradeKind) : Bool := k == buy || k == buyNo

def isSell (k : TradeKind) : Bool := k == sell || k == sellNo

def isResolution (k : TradeKind) : Bool := k == resolveYes || k == resolveNo

def isRejection (k : TradeKind) : Bool := k == rejectBuy || k == rejectSell

/-- The outcome whose shares a record moves; a rejection moves none. -/
def side? : TradeKind → Option OutcomeSide
  | buy | sell | resolveYes => some .yes
  | buyNo | sellNo | resolveNo => some .no
  | rejectBuy | rejectSell => none

theorem ofName?_name (k : TradeKind) : ofName? k.name = some k := by cases k <;> rfl

@[simp] theorem side?_buyOf (side : OutcomeSide) : (buyOf side).side? = some side := by cases side <;> rfl

@[simp] theorem side?_sellOf (side : OutcomeSide) : (sellOf side).side? = some side := by cases side <;> rfl

@[simp] theorem side?_resolveOf (side : OutcomeSide) : (resolveOf side).side? = some side := by cases side <;> rfl

theorem side?_ne_of_isRejection {k : TradeKind} (h : k.isRejection = true) (side : OutcomeSide) :
    k.side? ≠ some side := by
  cases k <;> cases side <;> revert h <;> decide

end TradeKind

/-- One event of an account. `value` is the cash moved, after the fee. -/
structure Trade where
  asset : String
  time : Instant
  kind : TradeKind
  price : Decimal
  shares : Decimal
  value : Decimal
  fee : Decimal
  deriving DecidableEq, Repr

namespace Trade

/-- A text filled with blanks on the right. -/
def padded (width : Nat) (s : String) : String :=
  s ++ String.ofList (List.replicate (width - s.length) ' ')

/-- The record on one line, if its numbers are short enough. -/
def toLine (t : Trade) : Decimal.Checked String := do
  let price ← t.price.toFixed 3
  let shares ← t.shares.toFixed 2
  let value ← t.value.toFixed 2
  return s!"[{t.time.toSecondsText}] {padded 11 t.kind.name} {t.asset} | price {price}" ++
    s!" | shares {shares} | value {value}"

end Trade
end OutcomeMarket

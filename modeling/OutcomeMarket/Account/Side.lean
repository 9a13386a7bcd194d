import OutcomeMarket.Decimal.Arithmetic

/-! The two outcome tokens of a market. Quotes are in terms of YES; a NO token is worth what is left
of a full dollar. -/
namespace OutcomeMarket

/-- Which outcome a token pays on. -/
inductive OutcomeSide where
  | yes
  | no
  deriving DecidableEq, Repr

namespace OutcomeSide

def name : OutcomeSide → String
  | yes => "YES"
  | no => "NO"

instance : ToString OutcomeSide := ⟨name⟩

/-- The side with this name. -/
def ofName? (s : String) : Option OutcomeSide := [yes, no].find? fun side => side.name == s

/-- The other outcome. -/
def opposite : OutcomeSide → OutcomeSide
  | yes => no
  | no => yes

@[simp] theorem opposite_opposite (s : OutcomeSide) : s.opposite.opposite = s := by cases s <;> rfl

/-- The price of a side, given the YES price. -/
def priceFromYes : OutcomeSide → Decimal → Decimal.Checked Decimal
  | yes, p => .ok p
  | no, p => Decimal.one.sub p

end OutcomeSide
end OutcomeMarket

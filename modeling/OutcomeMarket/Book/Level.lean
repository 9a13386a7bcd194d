import OutcomeMarket.Decimal.Reader
import OutcomeMarket.Ensure
import OutcomeMarket.Error.Execution
import OutcomeMarket.Text.Blank

/-! Price levels of a book, and their wire form: two texts, blanks around them allowed. -/
namespace OutcomeMarket

/-- Shares that rest at a price. -/
structure Level where
  price : Decimal
  size : Decimal
  deriving DecidableEq, Repr

namespace Level

/-- What a book admits: a price from zero to one, and no negative size. -/
def Admissible (l : Level) : Prop := .zero ≤ l.size ∧ .zero ≤ l.price ∧ l.price ≤ .one

instance (l : Level) : Decidable l.Admissible :=
  inferInstanceAs (Decidable (Decimal.zero ≤ l.size ∧ Decimal.zero ≤ l.price ∧ l.price ≤ .one))

end Level

/-- A level as it arrives. -/
structure RawLevel where
  price : String
  size : String
  deriving DecidableEq, Repr

/-- Why a raw level is none. -/
inductive LevelProblem where
  | badPrice (cause : Decimal.ReadError)
  | badSize (cause : Decimal.ReadError)
  | priceOutside
  | negativeSize
  deriving DecidableEq, Repr

def LevelProblem.message : LevelProblem → String
  | badPrice cause => s!"bad price: {cause.message}"
  | badSize cause => s!"bad size: {cause.message}"
  | priceOutside => "price outside [0, 1]"
  | negativeSize => "negative size"

namespace RawLevel

/-- The level that two texts denote. Both texts are read before ranges are looked at. -/
def parse (r : RawLevel) : Except LevelProblem Level := do
  let price ← (Decimal.read (Text.trim r.price)).mapError .badPrice
  let size ← (Decimal.read (Text.trim r.size)).mapError .badSize
  ensure (.zero ≤ price ∧ price ≤ .one) .priceOutside
  ensure (.zero ≤ size) .negativeSize
  return ⟨price, size⟩

/-- The error for a raw level that cannot be applied. -/
def problem (r : RawLevel) (p : LevelProblem) : ExecutionError :=
  .malformedEntry r.price r.size p.message

/-- A raw level that is read is the admissible level that its texts denote. -/
theorem parse_eq_ok_iff {r : RawLevel} {l : Level} :
    r.parse = .ok l ↔ Decimal.read (Text.trim r.price) = .ok l.price ∧
      Decimal.read (Text.trim r.size) = .ok l.size ∧ l.Admissible := by
  simp only [parse, bind_eq_ok_iff, mapError_eq_ok_iff, ensure_eq_ok_iff, pure_eq_ok_iff,
    Level.Admissible]
  constructor
  · rintro ⟨price, hp, size, hs, _, hr, _, hn, rfl⟩
    exact ⟨hp, hs, hn, hr⟩
  · rintro ⟨hp, hs, hn, hr⟩
    exact ⟨l.price, hp, l.size, hs, (), hr, (), hn, rfl⟩

theorem admissible_of_parse {r : RawLevel} {l : Level} (h : r.parse = .ok l) : l.Admissible :=
  (parse_eq_ok_iff.1 h).2.2

end RawLevel
end OutcomeMarket

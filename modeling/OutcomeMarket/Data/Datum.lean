import OutcomeMarket.Binary64.Basic

/-! What a document says, before anyone asks what it stands for. -/
namespace OutcomeMarket

inductive Datum where
  | null
  /-- A place that was left empty -/
  | missing
  | bool (b : Bool)
  /-- An integer of 64 bits, with or without sign -/
  | int (n : Int)
  | real (negative : Bool) (magnitude : Binary64)
  | text (s : String)
  | list (items : List Datum)
  | record (fields : List (String × Datum))
  /-- Something well formed that stands for no value -/
  | unreadable
  /-- A text with a tag: what it says by itself, and what the tag makes of it -/
  | tagged (bare meant : Datum)
  deriving Inhabited, Repr

namespace Datum

/-- Integers of 64 bits: the unsigned ones and the negative ones. -/
def fitsWord (n : Int) : Bool := decide (-9223372036854775808 ≤ n ∧ n ≤ 18446744073709551615)

/-- The value whatever its tag. -/
def bare : Datum → Datum
  | tagged d _ => d
  | d => d

/-- The value that the tag makes of it. -/
def meant : Datum → Datum
  | tagged _ d => d
  | d => d

/-- A real number, or nothing readable if it is out of range. -/
def ofReal (negative : Bool) : Option Binary64 → Datum
  | some x => real negative x
  | none => unreadable

end Datum
end OutcomeMarket

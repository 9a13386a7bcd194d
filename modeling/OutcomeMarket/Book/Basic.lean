import OutcomeMarket.Book.Level
import OutcomeMarket.Fault

/-! The order book of one outcome token: on each side the resting levels, best first. A level of size
zero is never stored: writing it removes the level at that price. Prices count by value, and a level
keeps the form of the price under which it was first written. -/
namespace OutcomeMarket

inductive BookSide where
  | bid
  | ask
  deriving DecidableEq, Repr

namespace BookSide

/-- Whether price p comes before q: the highest bid and the lowest ask are the best. -/
def Better : BookSide → Decimal → Decimal → Prop
  | bid, p, q => q < p
  | ask, p, q => p < q

instance (s : BookSide) (p q : Decimal) : Decidable (s.Better p q) :=
  match s with
  | bid => inferInstanceAs (Decidable (q < p))
  | ask => inferInstanceAs (Decidable (p < q))

/-- The price of an empty side: no buyer pays anything, no seller takes less than a dollar. -/
def emptyPrice : BookSide → Decimal
  | bid => .zero
  | ask => .one

/-- Write a level of positive size: at a price that rests already only the size changes. -/
def insertLevel (s : BookSide) (l : Level) : List Level → List Level
  | [] => [l]
  | x :: xs =>
    if s.Better l.price x.price then l :: x :: xs
    else if s.Better x.price l.price then x :: insertLevel s l xs
    else { x with size := l.size } :: xs

/-- Write a level; size zero takes the price off the book. -/
def setLevel (s : BookSide) (l : Level) (xs : List Level) : List Level :=
  if l.size.isZero then xs.filter fun x => !decide (x.price.SameValue l.price)
  else insertLevel s l xs

end BookSide

/-- What became of a raw update. -/
structure DeltaSummary where
  applied : Nat
  skipped : List ExecutionError
  deriving DecidableEq, Repr

namespace DeltaSummary

def empty : DeltaSummary := ⟨0, []⟩

def isClean (s : DeltaSummary) : Bool := s.skipped.isEmpty

end DeltaSummary

structure Book where
  asset : String
  bids : List Level
  asks : List Level
  deriving DecidableEq, Repr

/-- Changes of a book. After a fault the book is as the change had left it by then. -/
abbrev BookM := EStateM Fault Book

namespace Book

def empty (asset : String) : Book := ⟨asset, [], []⟩

def isEmpty (b : Book) : Bool := b.bids.isEmpty && b.asks.isEmpty

def levels (b : Book) : BookSide → List Level
  | .bid => b.bids
  | .ask => b.asks

def setLevels (b : Book) (s : BookSide) (xs : List Level) : Book :=
  match s with
  | .bid => { b with bids := xs }
  | .ask => { b with asks := xs }

def write (b : Book) (s : BookSide) (l : Level) : Book := b.setLevels s (s.setLevel l (b.levels s))

/-- Insist that levels are admissible. -/
def checkLevels (ls : List Level) : Faultable Unit :=
  ls.forM fun l => ensure l.Admissible (.invalidLevel l.size l.price)

/-- Write levels on one side, one after the other. -/
def writeAll (s : BookSide) (ls : List Level) : BookM Unit :=
  ls.forM fun l => modify (write · s l)

/-- Write typed changes, later ones over earlier ones. All levels are checked first: one that is not
admissible refuses them all. -/
def applyDelta (bids asks : List Level) : BookM Unit := do
  checkLevels (bids ++ asks)
  writeAll .bid bids
  writeAll .ask asks

/-- Write one raw level, or note why not. -/
def writeRaw (s : BookSide) (st : Book × DeltaSummary) (r : RawLevel) : Book × DeltaSummary :=
  match r.parse with
  | .ok l => (st.1.write s l, { st.2 with applied := st.2.applied + 1 })
  | .error p => (st.1, { st.2 with skipped := st.2.skipped ++ [r.problem p] })

/-- Write raw changes, bids before asks. A malformed entry is skipped. -/
def applyRaw (b : Book) (bids asks : List RawLevel) : Book × DeltaSummary :=
  asks.foldl (writeRaw .ask) (bids.foldl (writeRaw .bid) (b, .empty))

/-- Replace the book by a raw picture of it. -/
def applySnapshot (b : Book) (bids asks : List RawLevel) : Book × DeltaSummary :=
  (empty b.asset).applyRaw bids asks

def bestPrice (b : Book) (s : BookSide) : Decimal :=
  ((b.levels s).head?.map Level.price).getD s.emptyPrice

/-- The size at the best price, zero on an empty side. -/
def bestSize (b : Book) (s : BookSide) : Decimal :=
  ((b.levels s).head?.map Level.size).getD .zero

/-- Take shares out of the best level; a level without shares is gone. -/
def consume (b : Book) (s : BookSide) (shares : Decimal) : Faultable Book :=
  match b.levels s with
  | [] => return b
  | x :: xs => do
    let remaining ← x.size.sub shares
    return b.setLevels s (if remaining ≤ .zero then xs else { x with size := remaining } :: xs)

/-- The size that rests at the best n prices. -/
def depth (b : Book) (s : BookSide) (n : Nat) : Decimal.Checked Decimal :=
  Decimal.sum (((b.levels s).take n).map Level.size)

/-- Whether there are both buyers and sellers. -/
def hasTouch (b : Book) : Bool := !b.bids.isEmpty && !b.asks.isEmpty

/-- The middle of the best bid and the best ask, if there are both. -/
def mid (b : Book) : Decimal.Checked (Option Decimal) :=
  if b.hasTouch then do
    let s ← (b.bestPrice .bid).add (b.bestPrice .ask)
    let m ← s.div .two
    return some m
  else return none

/-- The best ask less the best bid, if there are both. -/
def spread (b : Book) : Decimal.Checked (Option Decimal) :=
  if b.hasTouch then do
    let d ← (b.bestPrice .ask).sub (b.bestPrice .bid)
    return some d
  else return none

end Book
end OutcomeMarket

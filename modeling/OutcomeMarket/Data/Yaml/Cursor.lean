/-! Positions in a YAML text. Lines end at any of five breaks, of which a carriage return and a line
feed together count as one. -/
namespace OutcomeMarket
namespace Yaml

def isBlank (c : Char) : Bool := c = ' ' || c = '\t'

/-- Line feed, carriage return, next line, line and paragraph separator. -/
def isBreak (c : Char) : Bool :=
  c = '\n' || c = '\r' || c = '\u0085' || c = '\u2028' || c = '\u2029'

/-- Whether a word ends here. -/
def gapAhead : List Char → Bool
  | [] => true
  | c :: _ => isBlank c || isBreak c

/-- A break as it counts inside a text: the separators stay, the others are a line feed. -/
def normalBreak (c : Char) : Char := if c = '\u2028' ∨ c = '\u2029' then c else '\n'

/-- The characters that a document may hold. -/
def isAllowed (c : Char) : Bool :=
  let n := c.toNat
  n == 0x9 || n == 0xa || n == 0xd || (0x20 ≤ n && n ≤ 0x7e) || n == 0x85 ||
    (0xa0 ≤ n && n ≤ 0xfffd) || 0x10000 ≤ n

/-- The length of a text in bytes. -/
def byteCount (cs : List Char) : Nat := cs.foldl (fun n c => n + c.utf8Size) 0

/-- What is still to be read, and where it stands. -/
structure Cursor where
  rest : List Char
  /-- The bytes before it -/
  index : Nat
  line : Nat
  column : Nat
  deriving DecidableEq, Repr

namespace Cursor

def start (s : String) : Cursor := ⟨s.toList, 0, 0, 0⟩

/-- One character further, or one line break. -/
def next (c : Cursor) : Cursor :=
  match c.rest with
  | [] => c
  | '\r' :: '\n' :: cs => ⟨cs, c.index + 2, c.line + 1, 0⟩
  | x :: cs =>
    if isBreak x then ⟨cs, c.index + x.utf8Size, c.line + 1, 0⟩
    else ⟨cs, c.index + x.utf8Size, c.line, c.column + 1⟩

/-- Some characters further on the same line. -/
def along (c : Cursor) (n : Nat) : Cursor :=
  ⟨c.rest.drop n, c.index + byteCount (c.rest.take n), c.line, c.column + n⟩

/-- Further on the same line, up to what is left of the rest. -/
def upTo (c : Cursor) (rest : List Char) : Cursor := c.along (c.rest.length - rest.length)

/-- On to the next line, where nothing but blanks and a comment stands before it. -/
def nextLine? (c : Cursor) : Option Cursor :=
  let c := c.upTo (c.rest.dropWhile isBlank)
  let c := if c.rest.head? == some '#' then c.upTo (c.rest.dropWhile fun x => !isBreak x) else c
  if c.rest.head?.all isBreak then some c.next else none

/-- Whether a line consists of the given character three times, alone or before a blank. -/
def atMark (c : Cursor) (x : Char) : Bool :=
  c.column == 0 && c.rest.take 3 == [x, x, x] && gapAhead (c.rest.drop 3)

/-- Whether a document starts or ends here. -/
def atDocumentMark (c : Cursor) : Bool := c.atMark '-' || c.atMark '.'

end Cursor

/-- What stands between two words: blanks on the line of the first word, then line breaks. -/
structure Gap where
  blanks : List Char
  breaks : List Char
  deriving DecidableEq, Repr

namespace Gap

def none : Gap := ⟨[], []⟩

/-- What a gap is inside a text. A single line break is a blank, of several the first one is dropped. -/
def fold (g : Gap) : List Char :=
  match g.breaks with
  | [] => g.blanks
  | '\n' :: [] => [' ']
  | '\n' :: more => more
  | breaks => breaks

end Gap

/-- Read a gap. On its later lines no tab may stand left of the given column. -/
def Cursor.readGap? (least : Nat) : Nat → Gap → Cursor → Option (Gap × Cursor)
  | 0, g, c => some (g, c)
  | fuel + 1, g, c =>
    match c.rest with
    | [] => some (g, c)
    | x :: _ =>
      if isBlank x then
        if g.breaks.isEmpty then readGap? least fuel { g with blanks := g.blanks ++ [x] } c.next
        else if x = '\t' ∧ c.column < least then Option.none
        else readGap? least fuel g c.next
      else if isBreak x then
        readGap? least fuel { g with breaks := g.breaks ++ [normalBreak x] } c.next
      else some (g, c)

/-- The gap in front, read to its end. -/
def Cursor.gap? (c : Cursor) (least : Nat) : Option (Gap × Cursor) :=
  c.readGap? least c.rest.length .none

end Yaml
end OutcomeMarket
